import PME.IC3.FrameContract
import PME.IC3.UNSATCoreLifter

namespace PME

namespace IC3

open Outcome TransitionRelation

/-- Every step under these inputs from a state in the first cube that is in F_INF leads into
the second. -/
def Leads (tr : TransitionRelation) (trace : InductiveTrace) (lifted succ inp pinp : Cube) : Prop :=
  ∀ x y, tr.Linked x y → InFrame trace .inf x → satCube x lifted → satCube x inp → satCube y pinp →
    satCube y succ

namespace UNSATCoreLifter

open FrameSolver

/-- The lifter before and after it is set up. What it has of F_INF still is in it. -/
structure Rep (B : Backend) (tr : TransitionRelation) (trace : InductiveTrace)
    (ul : UNSATCoreLifter) : Prop where
  tr_eq : ul.tr = tr
  start : ul.solverInited = false → ul.unrolled = []
  formula : ul.solverInited = true → TransitionRelationSolver.computeSimplifiedTR B tr = .ok ul.unrolled
  sent : ul.solverInited = true → ∃ sent : List Cube,
    ul.solver.clauses = ([idTrue] :: ul.unrolled) ++ sent.map negateVec ∧
    ∀ c ∈ sent, trace.At c .inf

variable {B : Backend} {tr : TransitionRelation} {first : ℕ} {trace trace' : InductiveTrace}
  {ul : UNSATCoreLifter} {pred succ inp pinp : Cube} {ℓ : Level} {fail : Failure → Prop}
  {x y : Assignment}

theorem rep_new : Rep B tr trace (new tr) := ⟨rfl, fun _ ↦ rfl, nofun, nofun⟩

theorem Rep.moved (h : Rep B tr trace ul) (hup : ∀ c, trace.At c .inf → trace'.At c .inf) :
    Rep B tr trace' ul := by
  refine ⟨h.tr_eq, h.start, h.formula, fun hi ↦ ?_⟩
  obtain ⟨sent, hclauses, hall⟩ := h.sent hi
  exact ⟨sent, hclauses, fun c hc ↦ hup c (hall c hc)⟩

theorem Rep.with_solver (h : Rep B tr trace ul) {ad : SATAdaptor}
    (hclauses : ad.clauses = ul.solver.clauses) : Rep B tr trace { ul with solver := ad } := by
  refine ⟨h.tr_eq, h.start, h.formula, fun hi ↦ ?_⟩
  obtain ⟨sent, hsent, hall⟩ := h.sent hi
  exact ⟨sent, hclauses.trans hsent, hall⟩

theorem sendLemma_meets {id : LemmaID} {c : Cube} (hinv : trace.Inv) (he : trace.Entry id c ℓ)
    (hempty : c = [] → fail .assertion) :
    Meets (fun ul' ↦ ∃ ad, ad.clauses = ul.solver.clauses ++ [negateVec c] ∧
      ul' = { ul with solver := ad }) fail (ul.sendLemma trace id) := by
  unfold sendLemma
  rw [hinv.getLemma_eq he, ok_bind]
  by_cases hc : c = []
  · subst hc
    exact hempty rfl
  · have hne : negateVec c ≠ [] := fun hno ↦ hc (List.map_eq_nil_iff.mp hno)
    exact (SATAdaptor.addClause_meets hne).bind fun ad had ↦ ⟨ad, had.1, rfl⟩

def Full (trace : InductiveTrace) (ul : UNSATCoreLifter) : Prop :=
  ∃ sent : List Cube, ul.solver.clauses = ([idTrue] :: ul.unrolled) ++ sent.map negateVec ∧
    ∀ c, trace.At c .inf → c ∈ sent

theorem renewSAT_meets (h : Rep B tr trace ul) (hi : ul.solverInited = false) (hinv : trace.Inv)
    (hempty : trace.At [] .inf → fail .assertion)
    (hformula : Meets (fun unrolled ↦ ∀ cls ∈ unrolled, cls ≠ []) fail
      (TransitionRelationSolver.computeSimplifiedTR B tr)) :
    Meets (fun ul' ↦ Rep B tr trace ul' ∧ ul'.solverInited = true ∧ Full trace ul') fail
      (ul.renewSAT B trace) := by
  unfold renewSAT TransitionRelationSolver.renewSAT
  rw [h.start hi, List.isEmpty_nil, if_pos rfl, h.tr_eq, bind_assoc]
  refine hformula.self.bind fun unrolled hu ↦ ?_
  obtain ⟨hcompute, hne⟩ := hu
  rw [bind_assoc]
  refine (SATAdaptor.addClauses_meets hne).bind fun ad had ↦ ?_
  unfold InductiveTrace.getFrame Frames.getFrame
  rw [pure_bind]
  dsimp only [Frames.frameExists]
  rw [ensure_true, ok_bind, pure_bind]
  refine (foldlM_meets (fun done (ul' : UNSATCoreLifter) ↦ ul'.tr = tr ∧ ul'.unrolled = unrolled ∧
    ∃ sent : List Cube, ul'.solver.clauses = ([idTrue] :: unrolled) ++ sent.map negateVec ∧
      (∀ c ∈ sent, trace.At c .inf) ∧ ∀ id ∈ done, ∀ c, trace.Entry id c .inf → c ∈ sent) _
    ⟨rfl, rfl, [], ?_, nofun, nofun⟩ ?_).bind fun ul' hul ↦ ?_
  · exact had.1.trans (List.append_nil _).symm
  · intro done id rest ul' hl hul
    obtain ⟨htr, hunrolled, sent, hclauses, hall, hdone⟩ := hul
    have hmem : id ∈ trace.frames.frame .inf := hl ▸ List.mem_append_right _ List.mem_cons_self
    obtain ⟨c, he⟩ := hinv.mem_iff.mp hmem
    have hat : trace.At c .inf := hinv.at_iff.mpr ⟨id, he⟩
    rw [hinv.getLemma_eq he, ok_bind]
    dsimp only
    rw [if_neg Bool.false_ne_true]
    refine (sendLemma_meets hinv he fun hc ↦ hempty (hc ▸ hat)).imp fun ul'' hul ↦ ?_
    obtain ⟨ad', had', rfl⟩ := hul
    refine ⟨htr, hunrolled, sent ++ [c], ?_, fun d hd ↦ ?_, fun i hi d hd ↦ ?_⟩
    · rw [had', hclauses, List.map_append, List.append_assoc]
      rfl
    · cases List.mem_append.mp hd with
      | inl hold => exact hall d hold
      | inr hself => exact List.mem_singleton.mp hself ▸ hat
    · cases List.mem_append.mp hi with
      | inl hold => exact List.mem_append_left _ (hdone i hold d hd)
      | inr hself =>
        obtain rfl := List.mem_singleton.mp hself
        obtain rfl := (hd.eq he).1
        exact List.mem_append_right _ List.mem_cons_self
  · obtain ⟨htr, hunrolled, sent, hclauses, hall, hdone⟩ := hul
    have hsent : ul'.solver.clauses = ([idTrue] :: ul'.unrolled) ++ sent.map negateVec :=
      hclauses.trans (hunrolled ▸ rfl)
    refine ⟨⟨htr, nofun, fun _ ↦ hcompute.trans (congrArg Except.ok hunrolled.symm), fun _ ↦ ?_⟩, rfl,
      sent, hsent, fun c hat ↦ ?_⟩
    · exact ⟨sent, hsent, hall⟩
    · obtain ⟨i, he⟩ := hinv.at_iff.mp hat
      exact hdone i (hinv.mem_iff.mpr ⟨c, he⟩) c he

theorem Rep.answers (h : Rep B tr trace ul) (hi : ul.solverInited = true) (hwf : tr.WellFormed) :
    Answers tr ul.unrolled := by
  have hmeets : Meets (Answers tr) (fun _ ↦ True)
      (TransitionRelationSolver.computeSimplifiedTR B tr) :=
    computeSimplifiedTR_meets hwf B fun _ ↦ trivial
  exact hmeets.of_ok (h.formula hi)

theorem Rep.exists_model (h : Rep B tr trace ul) (hi : ul.solverInited = true)
    (hr : FrameSolver.Readable tr first trace) (hxy : tr.Linked x y) (hx : InFrame trace .inf x) :
    ∃ σ, satClauses σ ul.solver.clauses ∧ ∀ lit, Visible tr lit →
      litVal σ lit = litVal x lit ∧ litVal σ (prime lit 1) = litVal y lit := by
  obtain ⟨sent, hclauses, hall⟩ := h.sent hi
  obtain ⟨σ, hσ, hval⟩ := (h.answers hi hr.wf).exists_model hr.wf hxy
  refine ⟨σ, ?_, hval⟩
  rw [hclauses, satClauses_append]
  refine ⟨hσ, fun cls hcls ↦ ?_⟩
  obtain ⟨c, hc, rfl⟩ := List.mem_map.mp hcls
  refine (satClause_negateVec c).mpr fun hcube ↦ hx c .inf (hall c hc) le_rfl fun lit hl ↦ ?_
  rw [← (hval lit (hr.visible c .inf (hall c hc) lit hl)).1]
  exact hcube lit hl

def Decides (clauses : ClauseVec) (cls : Clause) (assumps : Cube) : SAT.Answer → Prop
  | .sat m => satClauses m clauses ∧ satClause m cls ∧ satCube m assumps
  | .unsat crits => crits.Nodup ∧ crits ⊆ assumps ++ cls ∧ ∀ σ, satClauses σ clauses →
      satClause σ cls → ¬ ∀ crit ∈ crits, crit ∈ assumps → litVal σ crit = true

/-- The query is for a group with the clause, or, for one literal, under one assumption more. -/
theorem query_cases (B : Backend) (ad : SATAdaptor) (cls : Clause) (assumps : Cube) {α : Type}
    {post : α → Prop} (k : SAT.Answer × SATAdaptor → Result α) : cls ≠ [] →
    (∀ n db more ad', (db = ad.clauses ++ [cls] ∧ more = [] ∨ db = ad.clauses ∧ more = cls ∧ cls.length = 1) →
      ad'.clauses = ad.clauses → Meets post fail (k (B.sat.solve n db (assumps ++ more), ad'))) →
    Meets post fail ((match cls with
      | [lit] => pure (ad.solve B.sat (assumps ++ [lit]))
      | _ => do
        let (gid, solver) := ad.createGroup
        let solver ← solver.addGroupClause gid cls
        return solver.groupSolve B.sat gid assumps : Result (SAT.Answer × SATAdaptor)) >>= k) := by
  intro hcls hk
  have hgroup : Meets post fail (((do
      let (gid, solver) := ad.createGroup
      let solver ← solver.addGroupClause gid cls
      return solver.groupSolve B.sat gid assumps) : Result (SAT.Answer × SATAdaptor)) >>= k) := by
    rw [bind_assoc]
    refine (SATAdaptor.addGroupClause_createGroup hcls).bind fun ad' had ↦ ?_
    obtain ⟨hg, hclauses, -, -⟩ := had
    have hanswer := hk ad'.calls (ad'.clauses ++ ad'.groupClauses ad.createGroup.1) []
      (ad'.groupSolve B.sat ad.createGroup.1 assumps).2 (.inl ⟨by rw [hg, hclauses], rfl⟩)
      ((SATAdaptor.groupSolve_clauses B.sat _ _).trans hclauses)
    rw [List.append_nil] at hanswer
    exact hanswer
  match hform : cls with
  | [] => exact absurd rfl hcls
  | [lit] => exact hk _ _ _ _ (.inr ⟨rfl, rfl, rfl⟩) (ad.solve_clauses B.sat _)
  | a :: b :: rest => exact hgroup

theorem query_meets (B : Backend) (ad : SATAdaptor) (cls : Clause) (assumps : Cube) {α : Type}
    {post : α → Prop} (k : SAT.Answer × SATAdaptor → Result α) : cls ≠ [] →
    (∀ r : SAT.Answer × SATAdaptor, Decides ad.clauses cls assumps r.1 →
      r.2.clauses = ad.clauses → Meets post fail (k r)) →
    Meets post fail ((match cls with
      | [lit] => pure (ad.solve B.sat (assumps ++ [lit]))
      | _ => do
        let (gid, solver) := ad.createGroup
        let solver ← solver.addGroupClause gid cls
        return solver.groupSolve B.sat gid assumps : Result (SAT.Answer × SATAdaptor)) >>= k) := by
  intro hcls hk
  refine query_cases B ad cls assumps k hcls fun n db more ad' hdb had ↦ hk _ ?_ had
  have hvalid := B.sat.valid n db (assumps ++ more)
  generalize B.sat.solve n db (assumps ++ more) = answer at hvalid
  obtain ⟨rfl, rfl⟩ | ⟨rfl, rfl, hone⟩ := hdb
  · rw [List.append_nil] at hvalid
    cases answer with
    | sat m =>
      have hm := (satClauses_append _ _).mp hvalid.1
      exact ⟨hm.1, hm.2 cls List.mem_cons_self, hvalid.2⟩
    | unsat crits =>
      refine ⟨hvalid.2.1, fun crit hc ↦ List.mem_append_left _ (hvalid.1 hc), fun σ hσ hsat hall ↦ ?_⟩
      refine hvalid.2.2 σ ?_ fun crit hc ↦ hall crit hc (hvalid.1 hc)
      exact (satClauses_append _ _).mpr ⟨hσ, (satClauses_cons _ _).mpr ⟨hsat, satClauses_nil⟩⟩
  · obtain ⟨lit, rfl⟩ := List.length_eq_one_iff.mp hone
    cases answer with
    | sat m =>
      refine ⟨hvalid.1, ⟨lit, List.mem_cons_self, ?_⟩, fun a ha ↦ ?_⟩
      · exact hvalid.2 lit (List.mem_append_right _ List.mem_cons_self)
      · exact hvalid.2 a (List.mem_append_left _ ha)
    | unsat crits =>
      refine ⟨hvalid.2.1, hvalid.1, fun σ hσ hsat hall ↦ hvalid.2.2 σ hσ fun crit hc ↦ ?_⟩
      cases List.mem_append.mp (hvalid.1 hc) with
      | inl hmem => exact hall crit hc hmem
      | inr hself =>
        obtain ⟨lit', hl, hval⟩ := hsat
        rw [List.mem_singleton.mp hself, ← List.mem_singleton.mp hl]
        exact hval

structure Shown (tr : TransitionRelation) (first : ℕ) (trace : InductiveTrace) (ℓ : Level)
    (pred succ inp pinp : Cube) : Prop where
  readable : FrameSolver.Readable tr first trace
  target : Target tr succ
  step : Predecessor tr trace ℓ succ pred inp pinp
  nonempty : pred ≠ []

theorem satClause_negsucc {σ : Assignment} :
    satClause σ (negateVec (primeVec succ 1)) ↔ ∃ lit ∈ succ, litVal σ (prime lit 1) = false := by
  rw [satClause_negateVec]
  constructor
  · intro h
    by_contra hno
    refine h fun lit hl ↦ ?_
    obtain ⟨l, hmem, rfl⟩ := List.mem_map.mp hl
    exact Bool.not_eq_false _ ▸ fun hfalse ↦ hno ⟨l, hmem, hfalse⟩
  · intro hex hcube
    obtain ⟨lit, hl, hfalse⟩ := hex
    have htrue := hcube _ (List.mem_map_of_mem hl)
    exact nomatch htrue.symm.trans hfalse

theorem Shown.not_sat (h : Shown tr first trace ℓ pred succ inp pinp) (hrep : Rep B tr trace ul)
    (hi : ul.solverInited = true) {m : Assignment} :
    ¬ Decides ul.solver.clauses (negateVec (primeVec succ 1)) (pred ++ inp ++ primeVec pinp 1)
      (.sat m) := by
  intro hm
  obtain ⟨hclauses, hneg, hassumps⟩ := hm
  obtain ⟨sent, heq, -⟩ := hrep.sent hi
  rw [heq, satClauses_append] at hclauses
  obtain ⟨x, y, hxy, hval⟩ := (hrep.answers hi h.readable.wf).exists_linked h.readable.wf hclauses.1
  have hwf := h.readable.wf
  have hsucc := h.step.determined x y hxy ?_ ?_ ?_
  · obtain ⟨lit, hl, hfalse⟩ := satClause_negsucc.mp hneg
    have htrue := hsucc lit hl
    rw [(hval lit (h.target.visible lit hl)).2, hfalse] at htrue
    exact nomatch htrue
  · intro lit hl
    rw [(hval lit (visible_latch hwf (h.step.latches lit hl))).1]
    exact hassumps lit (List.mem_append_left _ (List.mem_append_left _ hl))
  · intro lit hl
    rw [(hval lit (visible_input hwf (h.step.inputs lit hl))).1]
    exact hassumps lit (List.mem_append_left _ (List.mem_append_right _ hl))
  · intro lit hl
    rw [(hval lit (visible_input hwf (h.step.primed lit hl))).2]
    exact hassumps _ (List.mem_append_right _ (List.mem_map_of_mem hl))

theorem Shown.leads (h : Shown tr first trace ℓ pred succ inp pinp) (hrep : Rep B tr trace ul)
    (hi : ul.solverInited = true) {crits lifted : Cube}
    (ha : Decides ul.solver.clauses (negateVec (primeVec succ 1)) (pred ++ inp ++ primeVec pinp 1)
      (.unsat crits)) (hcore : extractCore pred crits ⊆ lifted) :
    Leads tr trace lifted succ inp pinp := by
  intro x y hxy hx hlifted hinp hpinp
  by_contra hsucc
  have hwf := h.readable.wf
  obtain ⟨σ, hσ, hval⟩ := hrep.exists_model hi h.readable hxy hx
  refine ha.2.2 σ hσ (satClause_negsucc.mpr ?_) fun crit hcrit hmem ↦ ?_
  · by_contra hno
    refine hsucc fun lit hl ↦ ?_
    rw [← (hval lit (h.target.visible lit hl)).2]
    exact Bool.not_eq_false _ ▸ fun hfalse ↦ hno ⟨lit, hl, hfalse⟩
  · cases List.mem_append.mp hmem with
    | inl hnow =>
      cases List.mem_append.mp hnow with
      | inl hpred =>
        have hvis := visible_latch hwf (h.step.latches crit hpred)
        have hmin := (latch_var hwf _ (h.step.latches crit hpred)).1
        have hkept : crit ∈ extractCoreWithPrimes pred crits 0 := by
          refine mem_extractCore_of_prime hpred (hmin.trans (strip_le crit)) hvis.1.2
            (Nat.zero_le _) ?_
          rw [prime_zero hvis.1.2]
          exact hcrit
        rw [(hval crit hvis).1]
        exact hlifted crit (hcore hkept)
      | inr hin =>
        rw [(hval crit (visible_input hwf (h.step.inputs crit hin))).1]
        exact hinp crit hin
    | inr hnext =>
      obtain ⟨lit, hl, rfl⟩ := List.mem_map.mp hnext
      rw [(hval lit (visible_input hwf (h.step.primed lit hl))).2]
      exact hpinp lit hl

theorem Shown.nodup (h : Shown tr first trace ℓ pred succ inp pinp) {crits : Cube}
    (ha : Decides ul.solver.clauses (negateVec (primeVec succ 1)) (pred ++ inp ++ primeVec pinp 1)
      (.unsat crits)) : (extractCore pred crits).Nodup := by
  have hwf := h.readable.wf
  have hsmall : ∀ lit : ℕ, lit ≤ maxId → lit < 2 ^ 64 := fun lit hle ↦ by
    rw [maxId_eq] at hle
    omega
  have hone : 1 ≤ maxPrimes := by decide
  refine nodup_extractCore ha.1 fun crit hcrit ↦ ?_
  cases List.mem_append.mp (ha.2.1 hcrit) with
  | inl hassump =>
    cases List.mem_append.mp hassump with
    | inl hnow =>
      cases List.mem_append.mp hnow with
      | inl hpred => exact hsmall _ (visible_latch hwf (h.step.latches crit hpred)).1.2
      | inr hin => exact hsmall _ (visible_input hwf (h.step.inputs crit hin)).1.2
    | inr hnext =>
      obtain ⟨lit, hl, rfl⟩ := List.mem_map.mp hnext
      exact prime_lt (visible_input hwf (h.step.primed lit hl)).1.2 hone
  | inr hneg =>
    obtain ⟨l, hl, rfl⟩ := List.mem_map.mp hneg
    obtain ⟨lit, hlit, rfl⟩ := List.mem_map.mp hl
    have hmax := (h.target.visible lit hlit).1.2
    rw [← prime_negate hmax]
    exact prime_lt (negate_le hmax) hone

theorem lift_meets (h : Rep B tr trace ul) (hinv : trace.Inv)
    (hfail : ¬ Shown tr first trace ℓ pred succ inp pinp → fail .assertion ∧ fail .exception)
    (hsucc : succ = [] → fail .assertion) (hempty : trace.At [] .inf → fail .assertion)
    (hformula : Meets (fun unrolled ↦ ∀ cls ∈ unrolled, cls ≠ []) fail
      (TransitionRelationSolver.computeSimplifiedTR B tr)) :
    Meets (fun r ↦ Rep B tr trace r.2 ∧ r.1 ≠ [] ∧ r.1 ⊆ pred ∧
      (Shown tr first trace ℓ pred succ inp pinp →
        r.1.Nodup ∧ Leads tr trace r.1 succ inp pinp)) fail
      (ul.lift B trace pred succ inp pinp) := by
  unfold lift
  by_cases hnil : succ = []
  · subst hnil
    exact hsucc rfl
  rw [ensure_nonempty hnil, ok_bind]
  have hset : Meets (fun ul' ↦ Rep B tr trace ul' ∧ ul'.solverInited = true) fail
      (if ul.solverInited then pure ul else ul.renewSAT B trace) := by
    by_cases hi : ul.solverInited = true
    · rw [if_pos hi]
      exact ⟨h, hi⟩
    · rw [if_neg hi]
      exact (renewSAT_meets h (Bool.eq_false_iff.mpr hi) hinv hempty hformula).imp fun _ hul ↦
        ⟨hul.1, hul.2.1⟩
  refine hset.bind fun ul' hul ↦ ?_
  obtain ⟨hrep, hi⟩ := hul
  have hneg : negateVec (primeVec succ 1) ≠ [] := fun hno ↦
    hnil (List.map_eq_nil_iff.mp (List.map_eq_nil_iff.mp hno))
  refine query_meets B ul'.solver _ _ _ hneg fun r hr hclauses ↦ ?_
  obtain ⟨answer, ad⟩ := r
  dsimp only at hr hclauses ⊢
  have hrep' : Rep B tr trace { ul' with solver := ad } := hrep.with_solver hclauses
  cases answer with
  | sat m => exact (hfail fun hshown ↦ hshown.not_sat hrep hi hr).1
  | unsat crits =>
    dsimp only
    cases hcore : extractCore pred crits with
    | nil =>
      cases pred with
      | nil => exact (hfail fun hshown ↦ hshown.nonempty rfl).2
      | cons lit rest =>
        refine ⟨hrep', List.cons_ne_nil _ _, fun a ha ↦ ?_, fun hshown ↦ ?_⟩
        · exact List.mem_singleton.mp ha ▸ List.mem_cons_self
        · refine ⟨List.nodup_singleton lit, hshown.leads hrep hi hr ?_⟩
          rw [hcore]
          exact List.nil_subset _
    | cons lit rest =>
      refine ⟨hrep', List.cons_ne_nil _ _, fun a ha ↦ ?_, fun hshown ↦ ⟨?_, ?_⟩⟩
      · rw [← hcore] at ha
        exact mem_extractCore ha
      · rw [← hcore]
        exact hshown.nodup hr
      · refine hshown.leads hrep hi hr ?_
        rw [hcore]
        exact List.Subset.refl _

end UNSATCoreLifter

end IC3

end PME
