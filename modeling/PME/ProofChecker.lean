import PME.SimplifyTR
import PME.Lib.Safety

namespace PME

open Outcome TransitionRelation

structure ProofChecker where
  tr : TransitionRelation
  proof : ClauseVec
  indSolver : SATAdaptor
  initSolver : SATAdaptor

namespace ProofChecker

/-- The formula for initial states. Primes are only frozen for constraints, so that an initial
state that inherently leads to a constraint violation on the next cycle does not count. -/
def simplifyInit (Z : SAT.Simplifier) (tr : TransitionRelation) : Result ClauseVec := do
  let simpSolver ← SATAdaptor.new.addClauses (tr.unroll 2)
  let simpSolver ← simpSolver.addClauses tr.initState
  simpSolver.simplify Z (freeze tr.latchIDs false ++ freeze tr.constraints true ++ [tr.bad])

def new (Z : SAT.Simplifier) (simplify : Bool) (tr : TransitionRelation) (proof : ClauseVec) :
    Result ProofChecker := do
  let simp ← (if simplify then simplifyTR Z tr else pure (tr.unroll 2) : Result ClauseVec)
  let indSolver ← SATAdaptor.new.addClauses simp
  let indSolver ← indSolver.addClauses proof
  let simpInit ← (if simplify then simplifyInit Z tr else pure (tr.initState ++ tr.unroll 2) :
    Result ClauseVec)
  let initSolver ← SATAdaptor.new.addClauses simpInit
  return { tr, proof, indSolver, initSolver }

/-- The loop of the first two checks: queries one after the other, until one is satisfiable. -/
def refuteAll (S : SAT.Solver) : List Cube → SATAdaptor → Bool × SATAdaptor
  | [], ad => (true, ad)
  | q :: qs, ad =>
    let (a, ad) := ad.solve S q
    if a.isSat then (false, ad) else refuteAll S qs ad

def checkInitiation (S : SAT.Solver) (pc : ProofChecker) : Bool × ProofChecker :=
  let (b, initSolver) := refuteAll S (pc.proof.map negateVec) pc.initSolver
  (b, { pc with initSolver })

def checkInduction (S : SAT.Solver) (pc : ProofChecker) : Bool × ProofChecker :=
  let queries := pc.proof.map fun c ↦ primeVec (negateVec c) 1 ++ [negate pc.tr.bad]
  let (b, indSolver) := refuteAll S queries pc.indSolver
  (b, { pc with indSolver })

def checkSafety (S : SAT.Solver) (pc : ProofChecker) : Bool × ProofChecker :=
  let (a, indSolver) := pc.indSolver.solve S [pc.tr.bad]
  (!a.isSat, { pc with indSolver })

def checkInductiveStrengthening (S : SAT.Solver) (pc : ProofChecker) : Bool × ProofChecker :=
  let (a, indSolver) := pc.indSolver.solve S [negate pc.tr.bad, prime pc.tr.bad 1]
  (!a.isSat, { pc with indSolver })

def checkProof (S : SAT.Solver) (pc : ProofChecker) : Bool × ProofChecker :=
  let (b, pc) := pc.checkInitiation S
  if !b then (false, pc) else
  let (b, pc) := pc.checkInduction S
  if !b then (false, pc) else
  let (b, pc) := pc.checkSafety S
  if b then (true, pc) else pc.checkInductiveStrengthening S

end ProofChecker

namespace Engine

def removeProperty (tr : TransitionRelation) (proof : ClauseVec) : ClauseVec :=
  proof.erase tr.propertyClause

/-- `setProof`, which takes the proof over the file's literals. -/
def setProof (vm : VariableManager) (tr : TransitionRelation) (proof : List (List ℕ)) :
    Result ClauseVec := do
  return removeProperty tr (← vm.makeInternal proof)

def checkProof (S : SAT.Solver) (Z : SAT.Simplifier) (simplify : Bool) (tr : TransitionRelation)
    (proof : ClauseVec) : Result Bool := do
  let ind ← ProofChecker.new Z simplify tr proof
  return (ind.checkProof S).1

end Engine

namespace ProofChecker

variable {S : SAT.Solver} {Z : SAT.Simplifier} {tr : TransitionRelation} {proof : ClauseVec}
  {pc : ProofChecker} {simplify : Bool} {fail : Failure → Prop}

theorem refuteAll_clauses (qs : List Cube) (ad : SATAdaptor) :
    (refuteAll S qs ad).2.clauses = ad.clauses := by
  induction qs generalizing ad with
  | nil => rfl
  | cons q qs ih =>
    have hkeep : (ad.solve S q).2.clauses = ad.clauses := SATAdaptor.solve_clauses S q
    simp only [refuteAll]
    split
    · exact hkeep
    · exact (ih _).trans hkeep

theorem refuteAll_iff (qs : List Cube) (ad : SATAdaptor) : (refuteAll S qs ad).1 = true ↔
    ∀ q ∈ qs, ¬ ∃ σ, satClauses σ ad.clauses ∧ satCube σ q := by
  induction qs generalizing ad with
  | nil => simp [refuteAll]
  | cons q qs ih =>
    have hsat : (ad.solve S q).1.isSat = true ↔ _ := SATAdaptor.solve_isSat S q
    have hrest := ih (ad.solve S q).2
    rw [SATAdaptor.solve_clauses] at hrest
    rw [List.forall_mem_cons, ← hsat, ← hrest]
    simp only [refuteAll]
    cases (ad.solve S q).1.isSat <;> simp

def ProofClause (tr : TransitionRelation) (c : Clause) : Prop :=
  c = tr.propertyClause ∨ ∀ lit ∈ c, strip lit ∈ tr.latchIDs

instance (c : Clause) : Decidable (ProofClause tr c) := inferInstanceAs (Decidable (_ ∨ _))

theorem ProofClause.observed {c : Clause} (hc : ProofClause tr c) :
    ∀ lit ∈ c, ∃ o ∈ tr.latchIDs ++ [tr.bad], strip o = strip lit := by
  intro lit hl
  rcases hc with rfl | hc
  · obtain rfl := List.mem_singleton.mp hl
    exact ⟨tr.bad, List.mem_append_right _ List.mem_cons_self, (strip_negate _).symm⟩
  · exact ⟨strip lit, List.mem_append_left _ (hc lit hl), strip_strip _⟩

theorem ProofClause.validLit (h : tr.LitsValid) (hids : tr.latchIDs = tr.latches.map Latch.id) {c : Clause}
    (hc : ProofClause tr c) {lit : ℕ} (hl : lit ∈ c) : ValidLit lit := by
  rcases hc with rfl | hc
  · obtain rfl := List.mem_singleton.mp hl
    exact h.bad.negate
  · have hlatch := hc lit hl
    rw [hids] at hlatch
    obtain ⟨l, hmem, heq⟩ := List.mem_map.mp hlatch
    obtain ⟨hmin, hmax, -⟩ := h.latches l hmem
    have hle := strip_le lit
    rw [heq, minId_eq] at hmin
    rw [heq, maxId_eq] at hmax
    refine ⟨by rw [idFalse]; omega, ?_⟩
    rw [maxId_eq]
    rw [strip_eq] at hmax
    omega

structure Ready (tr : TransitionRelation) (proof : ClauseVec) (pc : ProofChecker) : Prop where
  tr_eq : pc.tr = tr
  proof_eq : pc.proof = proof
  ind : ∀ p : Assignment → Prop, (∀ σ τ, tr.SameObserved σ τ → p σ → p τ) →
    ((∃ σ, satClauses σ pc.indSolver.clauses ∧ p σ) ↔
      ∃ σ, satClauses σ ([idTrue] :: tr.unroll 2) ∧ satClauses σ proof ∧ p σ)
  init : ∀ p : Assignment → Prop, (∀ σ τ : Assignment, (∀ lit ∈ tr.latchIDs ++ [tr.bad],
      litVal τ lit = litVal σ lit) → p σ → p τ) →
    ((∃ σ, satClauses σ pc.initSolver.clauses ∧ p σ) ↔
      ∃ σ, satClauses σ ([idTrue] :: tr.unroll 2) ∧ satClauses σ tr.initState ∧ p σ)

theorem satClauses_congr_observed (h : tr.WellFormed) (hproof : ∀ c ∈ proof, ProofClause tr c)
    {σ τ : Assignment} (hs : tr.SameObserved σ τ) (hσ : satClauses σ proof) : satClauses τ proof := by
  intro c hc
  obtain ⟨lit, hl, hv⟩ := hσ c hc
  obtain ⟨o, ho, hstrip⟩ := (hproof c hc).observed lit hl
  have hobs : o ∈ tr.observed := by
    simp only [TransitionRelation.observed, List.mem_append] at ho ⊢
    tauto
  have hval := hs.observed o hobs 0 (Nat.zero_le 1)
  have hmax := (h.validLit_observed hobs).2
  rw [litVal_frameOf_zero hmax, litVal_frameOf_zero hmax, litVal_eq_iff] at hval
  refine ⟨lit, hl, ?_⟩
  have hsame : litVal τ lit = litVal σ lit := litVal_congr (hstrip ▸ hval)
  rw [hsame]
  exact hv

theorem simplifyInit_meets (Z : SAT.Simplifier) (h : tr.WellFormed) :
    Meets (fun simp ↦ ∀ p : Assignment → Prop, (∀ σ τ : Assignment,
        (∀ lit ∈ tr.latchIDs ++ [tr.bad], litVal τ lit = litVal σ lit) → p σ → p τ) →
      ((∃ σ, satClauses σ ([idTrue] :: simp) ∧ p σ) ↔
        ∃ σ, satClauses σ ([idTrue] :: tr.unroll 2) ∧ satClauses σ tr.initState ∧ p σ))
      (fun _ ↦ True) (simplifyInit Z tr) := by
  unfold simplifyInit
  refine (SATAdaptor.addClauses_meets (unroll_nonempty h.toCNF_nonempty 2)).bind fun ad had ↦ ?_
  obtain ⟨hcl, -⟩ := had
  cases hadd : ad.addClauses tr.initState with
  | error e => trivial
  | ok ad' =>
    have hdb : ad'.clauses = [idTrue] :: (tr.unroll 2 ++ tr.initState) := by
      rw [(SATAdaptor.addClauses_ok hadd).1, hcl]
      rfl
    rw [ok_bind]
    refine (SATAdaptor.simplify_meets fun _ ↦ trivial).imp fun simp hs p hp ↦ ?_
    rw [hdb] at hs
    rw [SAT.Simplifier.exists_iff hs p]
    · simp only [satClauses_cons, satClauses_append, and_assoc]
    · intro σ τ _ hsame
      refine hp σ τ fun lit hl ↦ litVal_congr (hsame _ (.inl ?_))
      refine List.mem_map_of_mem ?_
      simp only [List.mem_append, List.mem_singleton, mem_freeze, Bool.false_eq_true, false_and,
        or_false] at hl ⊢
      tauto

theorem new_meets (h : tr.WellFormed) (hproof : ∀ c ∈ proof, ProofClause tr c) :
    Meets (Ready tr proof) (fun _ ↦ True) (new Z simplify tr proof) := by
  have hind : Meets (fun simp ↦ ∀ p : Assignment → Prop, (∀ σ τ, tr.SameObserved σ τ → p σ → p τ) →
      ((∃ σ, satClauses σ ([idTrue] :: simp) ∧ p σ) ↔
        ∃ σ, satClauses σ ([idTrue] :: tr.unroll 2) ∧ p σ)) (fun _ ↦ True)
      (if simplify then simplifyTR Z tr else pure (tr.unroll 2)) := by
    cases simplify with
    | false => exact fun p _ ↦ Iff.rfl
    | true => exact (simplifyTR_meets h Z fun _ ↦ trivial).imp fun simp hs ↦ hs.2
  have hinit : Meets (fun simp ↦ ∀ p : Assignment → Prop, (∀ σ τ : Assignment,
        (∀ lit ∈ tr.latchIDs ++ [tr.bad], litVal τ lit = litVal σ lit) → p σ → p τ) →
      ((∃ σ, satClauses σ ([idTrue] :: simp) ∧ p σ) ↔
        ∃ σ, satClauses σ ([idTrue] :: tr.unroll 2) ∧ satClauses σ tr.initState ∧ p σ))
      (fun _ ↦ True)
      (if simplify then simplifyInit Z tr else pure (tr.initState ++ tr.unroll 2)) := by
    cases simplify with
    | true => exact simplifyInit_meets Z h
    | false =>
      intro p _
      refine exists_congr fun σ ↦ ?_
      simp only [satClauses_cons, satClauses_append]
      tauto
  unfold new
  refine hind.bind fun simp hsimp ↦ ?_
  cases hadd : SATAdaptor.new.addClauses simp with
  | error e => trivial
  | ok ind =>
    rw [ok_bind]
    cases hadd' : ind.addClauses proof with
    | error e => trivial
    | ok ind' =>
      rw [ok_bind]
      refine hinit.bind fun simpInit hsimpInit ↦ ?_
      cases hadd'' : SATAdaptor.new.addClauses simpInit with
      | error e => trivial
      | ok init =>
        have hcl : ind'.clauses = ([idTrue] :: simp) ++ proof := by
          rw [(SATAdaptor.addClauses_ok hadd').1, (SATAdaptor.addClauses_ok hadd).1]
          rfl
        have hcl' : init.clauses = [idTrue] :: simpInit := (SATAdaptor.addClauses_ok hadd'').1
        refine ⟨rfl, rfl, fun p hp ↦ ?_, fun p hp ↦ ?_⟩
        · dsimp only
          rw [hcl]
          have hq := hsimp (fun σ ↦ satClauses σ proof ∧ p σ) fun σ τ hs hσ ↦
            ⟨satClauses_congr_observed h hproof hs hσ.1, hp σ τ hs hσ.2⟩
          simp only [satClauses_append, and_assoc]
          exact hq
        · dsimp only
          rw [hcl']
          exact hsimpInit p hp

def Asked (tr : TransitionRelation) (cube : Cube) : Prop :=
  ∀ lit ∈ cube, ValidLit lit ∧ ∃ o ∈ tr.latchIDs ++ [tr.bad], strip o = strip lit

theorem ProofClause.asked (h : tr.WellFormed) {c : Clause} (hc : ProofClause tr c) :
    Asked tr (negateVec c) := by
  intro lit hl
  obtain ⟨l, hmem, rfl⟩ := List.mem_map.mp hl
  refine ⟨(hc.validLit h.toLitsValid h.latchIDs_eq hmem).negate, ?_⟩
  rw [strip_negate]
  exact hc.observed l hmem

theorem asked_bad (h : tr.WellFormed) : Asked tr [tr.bad] := by
  intro lit hl
  obtain rfl := List.mem_singleton.mp hl
  exact ⟨h.bad, tr.bad, List.mem_append_right _ List.mem_cons_self, rfl⟩

theorem asked_negate_bad (h : tr.WellFormed) : Asked tr [negate tr.bad] := by
  intro lit hl
  obtain rfl := List.mem_singleton.mp hl
  exact ⟨h.bad.negate, tr.bad, List.mem_append_right _ List.mem_cons_self, (strip_negate _).symm⟩

theorem Asked.litVal_eq {cube : Cube} (ha : Asked tr cube) {σ τ : Assignment}
    (hs : ∀ o ∈ tr.latchIDs ++ [tr.bad], litVal τ o = litVal σ o) (hσ : satCube σ cube) :
    satCube τ cube := by
  intro lit hl
  obtain ⟨-, o, ho, hstrip⟩ := ha lit hl
  have hval := litVal_eq_iff.mp (hs o ho)
  rw [hstrip] at hval
  rw [litVal_congr hval]
  exact hσ lit hl

/-- A query to the induction solver is a question about linked frames. -/
theorem Ready.ind_iff (hr : Ready tr proof pc) (h : tr.WellFormed)
    (hproof : ∀ c ∈ proof, ProofClause tr c) {now next : Cube} (hnow : Asked tr now)
    (hnext : Asked tr next) :
    (∃ σ, satClauses σ pc.indSolver.clauses ∧ satCube σ now ∧ satCube σ (primeVec next 1)) ↔
      ∃ x y, tr.Linked x y ∧ satClauses x proof ∧ satCube x now ∧ satCube y next := by
  have hzero : ∀ σ, satCube σ now ↔ satCube (frameOf σ 0) now := fun σ ↦
    forall₂_congr fun lit hl ↦ by rw [litVal_frameOf_zero (hnow lit hl).1.2]
  have hone : ∀ σ, satCube σ (primeVec next 1) ↔ satCube (frameOf σ 1) next := fun σ ↦
    satCube_primeVec (fun lit hl ↦ (hnext lit hl).1.2) 1
  have hobs : ∀ o ∈ tr.latchIDs ++ [tr.bad], o ∈ tr.observed := by
    intro o ho
    simp only [TransitionRelation.observed, List.mem_append] at ho ⊢
    tauto
  have hp := hr.ind (fun σ ↦ satCube (frameOf σ 0) now ∧ satCube (frameOf σ 1) next)
    fun σ τ hs hσ ↦ ⟨hnow.litVal_eq (fun o ho ↦ hs.observed o (hobs o ho) 0 (by decide)) hσ.1,
      hnext.litVal_eq (fun o ho ↦ hs.observed o (hobs o ho) 1 le_rfl) hσ.2⟩
  have hlink := exists_linked_iff h.toLitsValid h.latches_nodup
    (fun x y ↦ satClauses x proof ∧ satCube x now ∧ satCube y next) fun x x' y y' hx hy hxy ↦
      ⟨(hx.satClauses_iff fun c hc lit hl ↦ (hproof c hc).validLit h.toLitsValid h.latchIDs_eq hl).mp hxy.1,
        fun lit hl ↦ (hx.litVal_eq (hnow lit hl).1) ▸ hxy.2.1 lit hl,
        fun lit hl ↦ (hy.litVal_eq (hnext lit hl).1) ▸ hxy.2.2 lit hl⟩
  have hproof0 : ∀ σ, satClauses (frameOf σ 0) proof ↔ satClauses σ proof := fun σ ↦
    (sameSignals_frameOf_zero σ).satClauses_iff fun c hc lit hl ↦ (hproof c hc).validLit h.toLitsValid h.latchIDs_eq hl
  calc _ ↔ ∃ σ, satClauses σ pc.indSolver.clauses ∧
          satCube (frameOf σ 0) now ∧ satCube (frameOf σ 1) next :=
        exists_congr fun σ ↦ and_congr_right' (and_congr (hzero σ) (hone σ))
    _ ↔ _ := hp
    _ ↔ _ := exists_congr fun σ ↦ and_congr_right' (and_congr_left' (hproof0 σ).symm)
    _ ↔ _ := hlink

theorem Ready.init_iff (hr : Ready tr proof pc) (h : tr.WellFormed) {now : Cube}
    (hnow : Asked tr now) : (∃ σ, satClauses σ pc.initSolver.clauses ∧ satCube σ now) ↔
      ∃ x y, tr.Linked x y ∧ tr.IsInit x ∧ satCube x now := by
  have hp := hr.init (fun σ ↦ satCube σ now) fun σ τ hs hσ ↦ hnow.litVal_eq hs hσ
  have hlink := exists_linked_iff h.toLitsValid h.latches_nodup (fun x _ ↦ tr.IsInit x ∧ satCube x now)
    fun x x' y y' hx _ hxy ↦ ⟨hxy.1.congr h.toLitsValid hx,
      fun lit hl ↦ (hx.litVal_eq (hnow lit hl).1) ▸ hxy.2 lit hl⟩
  rw [hp, ← hlink]
  refine exists_congr fun σ ↦ and_congr_right fun hσ ↦ ?_
  have hc : σ idFalse = false := by simpa using ((satClauses_cons _ _).mp hσ).1
  have hs := sameSignals_frameOf_zero σ
  rw [satClauses_initState h.toLitsValid hc]
  refine and_congr ⟨.congr h.toLitsValid hs.symm, .congr h.toLitsValid hs⟩ ?_
  exact forall₂_congr fun lit hl ↦ by rw [litVal_frameOf_zero (hnow lit hl).1.2]

structure Checked (tr : TransitionRelation) (proof : ClauseVec) : Prop where
  initiation : ∀ x y, tr.Linked x y → tr.IsInit x → satClauses x proof
  induction : ∀ x y, tr.Linked x y → satClauses x proof → litVal x tr.bad = false →
    satClauses y proof
  safety : (∀ x y, tr.Linked x y → satClauses x proof → litVal x tr.bad = false) ∨
    ∀ x y, tr.Linked x y → satClauses x proof → litVal x tr.bad = false → litVal y tr.bad = false

theorem Ready.initiation_iff (hr : Ready tr proof pc) (h : tr.WellFormed)
    (hproof : ∀ c ∈ proof, ProofClause tr c) : (pc.checkInitiation S).1 = true ↔
      ∀ x y, tr.Linked x y → tr.IsInit x → satClauses x proof := by
  have hq : (pc.checkInitiation S).1 = true ↔
      ∀ c ∈ proof, ¬ ∃ x y, tr.Linked x y ∧ tr.IsInit x ∧ satCube x (negateVec c) := by
    rw [checkInitiation, refuteAll_iff, List.forall_mem_map, hr.proof_eq]
    exact forall₂_congr fun c hc ↦ not_congr (hr.init_iff h ((hproof c hc).asked h))
  rw [hq]
  simp only [satCube_negateVec]
  constructor
  · intro hno x y hxy hx c hc
    by_contra hcl
    exact hno c hc ⟨x, y, hxy, hx, hcl⟩
  · rintro hall c hc ⟨x, y, hxy, hx, hcl⟩
    exact hcl (hall x y hxy hx c hc)

theorem Ready.induction_iff (hr : Ready tr proof pc) (h : tr.WellFormed)
    (hproof : ∀ c ∈ proof, ProofClause tr c) : (pc.checkInduction S).1 = true ↔
      ∀ x y, tr.Linked x y → satClauses x proof → litVal x tr.bad = false → satClauses y proof := by
  have hq : (pc.checkInduction S).1 = true ↔ ∀ c ∈ proof, ¬ ∃ x y, tr.Linked x y ∧
      satClauses x proof ∧ satCube x [negate tr.bad] ∧ satCube y (negateVec c) := by
    rw [checkInduction, refuteAll_iff, List.forall_mem_map, hr.proof_eq, hr.tr_eq]
    refine forall₂_congr fun c hc ↦ not_congr ?_
    rw [← hr.ind_iff h hproof (asked_negate_bad h) ((hproof c hc).asked h)]
    exact exists_congr fun σ ↦ by rw [satCube_append, and_comm (a := satCube σ [negate tr.bad])]
  rw [hq]
  simp only [satCube_negateVec, satCube_cons, satCube_nil, and_true, litVal_negate,
    Bool.not_eq_true']
  constructor
  · intro hno x y hxy hx hbad c hc
    by_contra hcl
    exact hno c hc ⟨x, y, hxy, hx, hbad, hcl⟩
  · rintro hall c hc ⟨x, y, hxy, hx, hbad, hcl⟩
    exact hcl (hall x y hxy hx hbad c hc)

theorem Ready.safety_iff (hr : Ready tr proof pc) (h : tr.WellFormed)
    (hproof : ∀ c ∈ proof, ProofClause tr c) : (pc.checkSafety S).1 = true ↔
      ∀ x y, tr.Linked x y → satClauses x proof → litVal x tr.bad = false := by
  have hnil : Asked tr [] := fun _ hl ↦ absurd hl List.not_mem_nil
  have hq : (pc.checkSafety S).1 = true ↔
      ¬ ∃ x y, tr.Linked x y ∧ satClauses x proof ∧ satCube x [tr.bad] ∧ satCube y [] := by
    have hsat : (pc.indSolver.solve S [pc.tr.bad]).1.isSat = true ↔ _ := SATAdaptor.solve_isSat S _
    rw [← hr.ind_iff h hproof (asked_bad h) hnil, checkSafety, Bool.not_eq_true', ← Bool.not_eq_true,
      hsat, hr.tr_eq]
    simp [primeVec, primeClause]
  rw [hq]
  simp only [satCube_cons, satCube_nil, and_true]
  constructor
  · intro hno x y hxy hx
    by_contra hbad
    exact hno ⟨x, y, hxy, hx, by simpa using hbad⟩
  · rintro hall ⟨x, y, hxy, hx, hbad⟩
    rw [hall x y hxy hx] at hbad
    exact absurd hbad Bool.false_ne_true

theorem Ready.strengthening_iff (hr : Ready tr proof pc) (h : tr.WellFormed)
    (hproof : ∀ c ∈ proof, ProofClause tr c) : (pc.checkInductiveStrengthening S).1 = true ↔
      ∀ x y, tr.Linked x y → satClauses x proof → litVal x tr.bad = false →
        litVal y tr.bad = false := by
  have hq : (pc.checkInductiveStrengthening S).1 = true ↔ ¬ ∃ x y, tr.Linked x y ∧
      satClauses x proof ∧ satCube x [negate tr.bad] ∧ satCube y [tr.bad] := by
    have hsat : (pc.indSolver.solve S [negate pc.tr.bad, prime pc.tr.bad 1]).1.isSat = true ↔ _ :=
      SATAdaptor.solve_isSat S _
    rw [← hr.ind_iff h hproof (asked_negate_bad h) (asked_bad h), checkInductiveStrengthening,
      Bool.not_eq_true', ← Bool.not_eq_true, hsat, hr.tr_eq]
    simp [primeVec, primeClause]
  rw [hq]
  simp only [satCube_cons, satCube_nil, and_true, litVal_negate, Bool.not_eq_true']
  constructor
  · intro hno x y hxy hx hnow
    by_contra hbad
    exact hno ⟨x, y, hxy, hx, hnow, by simpa using hbad⟩
  · rintro hall ⟨x, y, hxy, hx, hnow, hbad⟩
    rw [hall x y hxy hx hnow] at hbad
    exact absurd hbad Bool.false_ne_true

theorem Ready.of_clauses {pc' : ProofChecker} (hr : Ready tr proof pc) (htr : pc'.tr = pc.tr)
    (hpr : pc'.proof = pc.proof) (hind : pc'.indSolver.clauses = pc.indSolver.clauses)
    (hinit : pc'.initSolver.clauses = pc.initSolver.clauses) : Ready tr proof pc' where
  tr_eq := htr.trans hr.tr_eq
  proof_eq := hpr.trans hr.proof_eq
  ind := hind ▸ hr.ind
  init := hinit ▸ hr.init

/-- The checks run in turn, each on the solvers as the ones before left them. -/
theorem checkProof_eq : (pc.checkProof S).1 = ((pc.checkInitiation S).1 &&
    (((pc.checkInitiation S).2.checkInduction S).1 &&
      ((((pc.checkInitiation S).2.checkInduction S).2.checkSafety S).1 ||
        ((((pc.checkInitiation S).2.checkInduction S).2.checkSafety S).2.checkInductiveStrengthening
          S).1))) := by
  simp only [checkProof]
  cases (pc.checkInitiation S).1 with
  | false => rfl
  | true =>
    cases ((pc.checkInitiation S).2.checkInduction S).1 with
    | false => rfl
    | true =>
      cases (((pc.checkInitiation S).2.checkInduction S).2.checkSafety S).1 with
      | false => rfl
      | true => rfl

theorem Ready.checkProof_iff (hr : Ready tr proof pc) (h : tr.WellFormed)
    (hproof : ∀ c ∈ proof, ProofClause tr c) :
    (pc.checkProof S).1 = true ↔ Checked tr proof := by
  have hr₁ : Ready tr proof (pc.checkInitiation S).2 :=
    hr.of_clauses rfl rfl rfl (refuteAll_clauses _ _)
  have hr₂ : Ready tr proof ((pc.checkInitiation S).2.checkInduction S).2 :=
    hr₁.of_clauses rfl rfl (refuteAll_clauses _ _) rfl
  have hr₃ : Ready tr proof (((pc.checkInitiation S).2.checkInduction S).2.checkSafety S).2 :=
    hr₂.of_clauses rfl rfl (SATAdaptor.solve_clauses S _) rfl
  have h₁ := hr.initiation_iff (S := S) h hproof
  have h₂ := hr₁.induction_iff (S := S) h hproof
  have h₃ := hr₂.safety_iff (S := S) h hproof
  have h₄ := hr₃.strengthening_iff (S := S) h hproof
  simp only [checkProof_eq, Bool.and_eq_true, Bool.or_eq_true, h₁, h₂, h₃, h₄]
  exact ⟨fun ⟨hi, hc, hs⟩ ↦ ⟨hi, hc, hs⟩, fun ⟨hi, hc, hs⟩ ↦ ⟨hi, hc, hs⟩⟩

/-- No run from an initial state, with one more frame after it that satisfies the constraints,
ends in a bad frame, provided the property was checked in the initial states. -/
theorem checkProof_sound (S : SAT.Solver) (Z : SAT.Simplifier) (simplify : Bool)
    (h : tr.WellFormed) (hproof : ∀ c ∈ proof, ProofClause tr c)
    (hok : Engine.checkProof S Z simplify tr proof = .ok true)
    (hinit : tr.propertyClause ∈ proof ∨
      ∀ x, tr.IsInit (x 0) → tr.IsRun 2 x → litVal (x 0) tr.bad = false)
    (k : ℕ) (x : ℕ → Assignment) (hx : tr.IsInit (x 0)) (hrun : tr.IsRun (k + 2) x) :
    litVal (x k) tr.bad = false := by
  rw [Engine.checkProof, bind_eq_ok] at hok
  obtain ⟨pc, hnew, hcheck⟩ := hok
  have hc := ((new_meets h hproof).of_ok hnew).checkProof_iff h hproof |>.mp (Except.ok.inj hcheck)
  have hgood : ∀ x y, tr.IsInit x → tr.Linked x y → litVal x tr.bad = false := by
    intro x y hx hxy
    rcases hinit with hmem | hinit
    · have hval := hc.initiation x y hxy hx _ hmem
      simpa [propertyClause] using hval
    · obtain ⟨z, hz⟩ := exists_step h.latches_nodup y
      let w : ℕ → Assignment := fun i ↦ if i = 0 then x else if i = 1 then y else z
      exact hinit w hx (isRun_two_iff.mpr ⟨hxy, hz⟩)
  let inv : Assignment → Prop := fun y ↦ satClauses y proof
  let bad : Assignment → Prop := fun y ↦ litVal y tr.bad = true
  have hsafe : (∀ x y, inv x → tr.Linked x y → ¬ bad x) ∨
      ∀ x y, inv x → ¬ bad x → tr.Linked x y → ¬ bad y := by
    refine hc.safety.imp (fun hs x y hinv hxy ↦ ?_) fun hs x y hinv hbad hxy ↦ ?_
    · exact ne_true_of_eq_false (hs x y hxy hinv)
    · exact ne_true_of_eq_false (hs x y hxy hinv (Bool.eq_false_iff.mpr hbad))
  have hlinked : ∀ i ≤ k, tr.Linked (x i) (x (i + 1)) := fun i hi ↦
    ⟨(hrun i (by omega)).1, (hrun (i + 1) (by omega)).1, (hrun i (by omega)).2⟩
  have hk : ¬ bad (x k) := by
    refine Safety.not_bad_of_strengthening (fun y z hy hyz ↦ ?_) (fun y z hinv hbad hyz ↦ ?_)
      hsafe hx hlinked
    · exact ⟨hc.initiation y z hyz hy, ne_true_of_eq_false (hgood y z hy hyz)⟩
    · exact hc.induction y z hyz hinv (Bool.eq_false_iff.mpr hbad)
  exact Bool.eq_false_iff.mpr hk

/-- Without simplification the checker's answer is exactly its four checks. -/
theorem checkProof_keep (h : tr.WellFormed) (hproof : ∀ c ∈ proof, ProofClause tr c)
    (hne : ∀ c ∈ proof, c ≠ []) (hinit : ∀ c ∈ tr.initState, c ≠ []) :
    ∃ b, Engine.checkProof S Z false tr proof = .ok b ∧ (b = true ↔ Checked tr proof) := by
  have hnew : Meets (fun _ ↦ True) (fun _ ↦ False) (new Z false tr proof) := by
    unfold new
    simp only [Bool.false_eq_true, if_false, pure_bind]
    refine (SATAdaptor.addClauses_meets (unroll_nonempty h.toCNF_nonempty 2)).bind fun ind _ ↦ ?_
    refine (SATAdaptor.addClauses_meets hne).bind fun ind' _ ↦ ?_
    refine (SATAdaptor.addClauses_meets ?_).bind fun init _ ↦ trivial
    exact List.forall_mem_append.mpr ⟨hinit, unroll_nonempty h.toCNF_nonempty 2⟩
  obtain ⟨pc, hok, -⟩ := hnew.exists_ok
  have hr : Ready tr proof pc := (new_meets h hproof).of_ok hok
  refine ⟨(pc.checkProof S).1, ?_, hr.checkProof_iff h hproof⟩
  rw [Engine.checkProof, hok]
  rfl

/-- The latch stays low, and so do the gates. -/
theorem checked_relay : Checked relay [[5], [9]] := by
  have hsat : ∀ y, satClauses y [[5], [9]] ↔ y 4 = false ∧ litVal y relay.bad = false := fun y ↦ by
    have hfive : litVal y 5 = !y 4 := (litVal_negate 4).trans (congrArg _ (litVal_of_even rfl))
    have hnine : litVal y 9 = !litVal y 8 := litVal_negate 8
    simp [relay, hfive, hnine]
  have hlow : ∀ y, relay.IsFrame y → y 4 = false → litVal y relay.bad = false := fun y hy hl ↦ by
    have hgate : ∀ g ∈ relay.gates, litVal y g.lhs = (litVal y g.rhs0 && litVal y g.rhs1) := fun g hg ↦
      (satClauses_toCNF y g).mp fun cls hcls ↦ hy.gates cls (List.mem_flatMap_of_mem hg hcls)
    have hfirst := hgate ⟨6, 4, 4⟩ List.mem_cons_self
    have hsecond := hgate ⟨8, 6, 6⟩ (.tail _ (.head _))
    have hlatch : litVal y 4 = y 4 := litVal_of_even rfl
    dsimp only at hfirst hsecond
    rw [Bool.and_self, hlatch, hl] at hfirst
    rwa [Bool.and_self, hfirst] at hsecond
  refine ⟨fun x y hxy hx ↦ ?_, fun x y hxy hx _ ↦ ?_, .inl fun x y _ hx ↦ ((hsat x).mp hx).2⟩
  · have hreset : x 4 = litVal x idFalse := hx ⟨4, 4, idFalse⟩ List.mem_cons_self (by decide)
    rw [litVal_idFalse, hxy.fst.const] at hreset
    exact (hsat x).mpr ⟨hreset, hlow x hxy.fst hreset⟩
  · have hstep : y 4 = litVal x 4 := hxy.step ⟨4, 4, idFalse⟩ List.mem_cons_self
    have hlatch : litVal x 4 = x 4 := litVal_of_even rfl
    rw [hlatch, ((hsat x).mp hx).1] at hstep
    exact (hsat y).mpr ⟨hstep, hlow y hxy.snd hstep⟩

def relayRun : ℕ → Assignment := fun _ _ ↦ false

theorem isRun_relayRun : relay.IsRun 5 relayRun := by
  have hframe : relay.IsFrame (relayRun 0) := ⟨by decide, by decide, by decide⟩
  have hstep : relay.Step (relayRun 0) (relayRun 0) := by decide
  exact fun _ _ ↦ ⟨hframe, hstep⟩

theorem relay_sound : litVal (relayRun 3) relay.bad = false := by
  have hproof : ∀ c ∈ [[5], [9]], ProofClause relay c := by decide
  obtain ⟨b, hok, hb⟩ :=
    checkProof_keep (S := .exhaustive) (Z := .keep) relay_wellFormed hproof (by decide) (by decide)
  rw [hb.mpr checked_relay] at hok
  exact checkProof_sound .exhaustive .keep false relay_wellFormed hproof hok (.inl (by decide)) 3 relayRun
    (by decide) isRun_relayRun

def deadEnd : TransitionRelation where
  bad := 4
  latches := [⟨4, idFalse, idTrue⟩, ⟨6, 4, idFalse⟩]
  gates := []
  latchIDs := [4, 6]
  inputIDs := []
  gateIDs := []
  constraints := [negate 6]
  gateCNF := AndGate.toCNF

theorem deadEnd_wellFormed : deadEnd.WellFormed where
  bad := by decide
  gates := by decide
  latches := by decide
  reset := by decide
  constraints := by decide
  ands := by decide
  latchIDs_eq := rfl
  gateIDs_eq := rfl
  isVar := by decide
  nodup := by decide
  next := by decide
  constraints_defined := by decide
  bad_defined := by decide
  rhs_defined := by decide
  gates_computed := ⟨fun _ ↦ 0, nofun⟩

theorem badAt_deadEnd : deadEnd.BadAt 0 := by
  refine ⟨fun i v ↦ decide (v = 4 + 2 * i), ?_, fun i hi ↦ ?_, by decide⟩
  · decide
  · obtain rfl : i = 0 := by omega
    exact ⟨⟨by decide, by decide, by decide⟩, by decide⟩

theorem checked_deadEnd : Checked deadEnd [] := by
  have hgood : ∀ x y, deadEnd.Linked x y → litVal x deadEnd.bad = false := by
    intro x y hxy
    have hstep : y 6 = litVal x 4 := hxy.step ⟨6, 4, idFalse⟩ (by decide)
    have hcon : litVal y (negate 6) = true := hxy.snd.constraints _ List.mem_cons_self
    rw [litVal_negate, litVal_of_even rfl, hstep] at hcon
    have hlow : litVal x 4 = false := by simpa using hcon
    exact hlow
  exact ⟨fun _ _ _ _ ↦ satClauses_nil, fun _ _ _ _ _ ↦ satClauses_nil,
    .inl fun x y hxy _ ↦ hgood x y hxy⟩

theorem checkProof_sound_fails : ¬ ∀ (S : SAT.Solver) (Z : SAT.Simplifier) (simplify : Bool)
    (tr : TransitionRelation) (proof : ClauseVec), tr.WellFormed →
    (∀ c ∈ proof, ProofClause tr c) → Engine.checkProof S Z simplify tr proof = .ok true →
    ∀ k, ¬ tr.BadAt k := by
  intro hall
  have hproof : ∀ c ∈ ([] : ClauseVec), ProofClause deadEnd c := nofun
  obtain ⟨b, hok, hb⟩ :=
    checkProof_keep (S := .exhaustive) (Z := .keep) deadEnd_wellFormed hproof nofun (by decide)
  rw [hb.mpr checked_deadEnd] at hok
  exact hall .exhaustive .keep false deadEnd [] deadEnd_wellFormed hproof hok 0 badAt_deadEnd

def pulse : TransitionRelation where
  bad := 4
  latches := [⟨4, idFalse, idTrue⟩]
  gates := []
  latchIDs := [4]
  inputIDs := []
  gateIDs := []
  constraints := []
  gateCNF := AndGate.toCNF

def pulseFile : Aiger where
  maxvar := 1
  inputs := []
  latches := [⟨2, 0, 1⟩]
  ands := []
  outputs := [2]
  constraints := []

theorem pulse_wellFormed : pulse.WellFormed where
  bad := by decide
  gates := by decide
  latches := by decide
  reset := by decide
  constraints := by decide
  ands := by decide
  latchIDs_eq := rfl
  gateIDs_eq := rfl
  isVar := by decide
  nodup := by decide
  next := by decide
  constraints_defined := by decide
  bad_defined := by decide
  rhs_defined := by decide
  gates_computed := ⟨fun _ ↦ 0, nofun⟩

theorem checked_pulse : Checked pulse [] := by
  refine ⟨fun _ _ _ _ ↦ satClauses_nil, fun _ _ _ _ _ ↦ satClauses_nil, .inr fun x y hxy _ _ ↦ ?_⟩
  have hstep : y 4 = litVal x idFalse := hxy.step ⟨4, idFalse, idTrue⟩ List.mem_cons_self
  have hlow : litVal y 4 = false := by
    rw [litVal_of_even rfl, hstep, litVal_idFalse, hxy.fst.const]
  exact hlow

theorem not_checked_pulse : ¬ Checked pulse [pulse.propertyClause] := by
  intro hc
  let x : Assignment := fun v ↦ decide (v = 4)
  let y : Assignment := fun _ ↦ false
  have hxy : pulse.Linked x y := ⟨⟨by decide, by decide, by decide⟩, ⟨rfl, by decide, by decide⟩,
    by decide⟩
  have hval := hc.initiation x y hxy (by decide)
  exact absurd hval (by decide)

/-- Without the property among its clauses the checker accepts a proof that does not hold
initially, and `setProof` takes the property out of the clauses it is given. -/
theorem setProof_loses_property (S : SAT.Solver) (Z : SAT.Simplifier) :
    ∃ vm, fromAiger .new pulseFile = .ok (pulse, vm) ∧ Engine.setProof vm pulse [[3]] = .ok [] ∧
      Engine.checkProof S Z false pulse [pulse.propertyClause] = .ok false ∧
      Engine.checkProof S Z false pulse [] = .ok true ∧ pulse.BadAt 0 := by
  have hnil : ∀ c ∈ ([] : ClauseVec), ProofClause pulse c := nofun
  have hone : ∀ c ∈ [pulse.propertyClause], ProofClause pulse c := by decide
  obtain ⟨b, hok, hb⟩ := checkProof_keep (S := S) (Z := Z) pulse_wellFormed hone (by decide) (by decide)
  obtain ⟨b', hok', hb'⟩ := checkProof_keep (S := S) (Z := Z) pulse_wellFormed hnil nofun (by decide)
  refine ⟨_, rfl, rfl, ?_, ?_, fun i v ↦ decide (i = 0 ∧ v = 4), by decide, fun i hi ↦ ?_, by decide⟩
  · rw [hok, Bool.eq_false_iff.mpr (mt hb.mp not_checked_pulse)]
  · rw [hok', hb'.mpr checked_pulse]
  · obtain rfl : i = 0 := by omega
    exact ⟨⟨by decide, by decide, by decide⟩, by decide⟩

end ProofChecker

end PME
