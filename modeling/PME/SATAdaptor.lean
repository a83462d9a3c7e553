import PME.Cnf
import PME.Lib.Outcome

namespace PME

open Outcome

/-- Ways the program stops early. `idsExhausted` is the assertion of
`VariableManager::getNewID` that IDs are left; `outOfFuel` never comes from the code. At
`narrowed` only the model stops: the code has put an ID into a type too small for it, and
goes on with another ID. -/
inductive Failure
  | assertion
  | exception
  | idsExhausted
  | outOfFuel
  | narrowed
deriving DecidableEq, Repr

abbrev Result := Except Failure

/-- The C macro `assert`. -/
def ensure (b : Bool) : Result Unit := if b then .ok () else .error .assertion

@[simp] theorem ensure_true : ensure true = .ok () := rfl

@[simp] theorem ensure_false : ensure false = .error .assertion := rfl

theorem ensure_eq_ok {b : Bool} {u : Unit} (h : ensure b = .ok u) : b = true := by
  cases b with
  | true => rfl
  | false => exact nomatch h

theorem ensure_meets {b : Bool} {fail : Failure → Prop} (h : b = false → fail .assertion) :
    Meets (fun _ ↦ b = true) fail (ensure b) := by
  cases b with
  | true => rfl
  | false => exact h rfl

theorem ensure_nonempty {cls : Clause} (hc : cls ≠ []) : ensure (!cls.isEmpty) = .ok () := by
  cases cls with
  | nil => exact absurd rfl hc
  | cons lit cls => rfl

namespace SAT

inductive Answer
  | sat (model : Assignment)
  | unsat (crits : Cube)

def Answer.isSat : Answer → Bool
  | .sat _ => true
  | .unsat _ => false

def Answer.Valid (db : ClauseVec) (assumps : Cube) : Answer → Prop
  | .sat m => satClauses m db ∧ satCube m assumps
  | .unsat crits => crits ⊆ assumps ∧ crits.Nodup ∧ ∀ σ, satClauses σ db → ¬ satCube σ crits

/-- A SAT solver that answers every query correctly. The first argument counts the queries,
so that the same query may get different models and cores at different times. -/
structure Solver where
  solve : ℕ → ClauseVec → Cube → Answer
  valid : ∀ n db assumps, (solve n db assumps).Valid db assumps

theorem Answer.Valid.isSat_iff {db : ClauseVec} {assumps : Cube} {a : Answer}
    (h : a.Valid db assumps) : a.isSat = true ↔ ∃ σ, satClauses σ db ∧ satCube σ assumps := by
  cases a with
  | sat m => exact ⟨fun _ ↦ ⟨m, h⟩, fun _ ↦ rfl⟩
  | unsat crits =>
    refine ⟨nofun, fun ⟨σ, hdb, ha⟩ ↦ ?_⟩
    exact absurd (satCube_subset h.1 ha) (h.2.2 σ hdb)

open Classical in
noncomputable def Solver.exhaustive : Solver where
  solve _ db assumps :=
    if h : ∃ σ, satClauses σ db ∧ satCube σ assumps then .sat h.choose else .unsat assumps.dedup
  valid _ db assumps := by
    split
    · exact Exists.choose_spec ‹_›
    · refine ⟨List.dedup_subset assumps, List.nodup_dedup assumps, fun σ hdb hc ↦ ?_⟩
      have hsat : ∃ σ, satClauses σ db ∧ satCube σ assumps :=
        ⟨σ, hdb, satCube_subset (List.subset_dedup assumps) hc⟩
      contradiction

def Solver.Prefers (S : Solver) (p : Assignment → Prop) : Prop :=
  ∀ n db assumps, (∃ σ, (satClauses σ db ∧ satCube σ assumps) ∧ p σ) →
    ∃ m, S.solve n db assumps = .sat m ∧ p m

open Classical in
noncomputable def Solver.preferring (p : Assignment → Prop) : Solver where
  solve n db assumps :=
    if h : ∃ σ, (satClauses σ db ∧ satCube σ assumps) ∧ p σ then .sat h.choose
    else Solver.exhaustive.solve n db assumps
  valid n db assumps := by
    split
    · next h => exact h.choose_spec.1
    · exact Solver.exhaustive.valid n db assumps

theorem Solver.preferring_prefers (p : Assignment → Prop) : (preferring p).Prefers p := by
  intro n db assumps h
  exact ⟨h.choose, dif_pos h, h.choose_spec.2⟩

/-- Variable elimination: `eliminate` on a formula with some variables frozen, followed by
reading the clauses and the trail back. It gives up on a formula found unsatisfiable. A
variable fixed by a unit clause, such as that of the constants, is never eliminated. -/
structure Simplifier where
  eliminate : ClauseVec → List ℕ → Option ClauseVec
  unsat : ∀ db frozen, eliminate db frozen = none → ∀ σ, ¬ satClauses σ db
  sound : ∀ db frozen simp, eliminate db frozen = some simp → ∀ σ, satClauses σ simp →
    ∃ τ, τ idFalse = σ idFalse ∧ (∀ v ∈ frozen, τ v = σ v) ∧ satClauses τ db
  complete : ∀ db frozen simp, eliminate db frozen = some simp → ∀ σ, satClauses σ db →
    ∃ τ, τ idFalse = σ idFalse ∧ (∀ v ∈ frozen, τ v = σ v) ∧ satClauses τ simp
  vars : ∀ db frozen simp, eliminate db frozen = some simp →
    varsOf simp ⊆ varsOf db ∪ {v | v ∈ frozen}
  nonempty : ∀ db frozen simp, eliminate db frozen = some simp → ∀ cls ∈ simp, cls ≠ []

open Classical in
noncomputable def Simplifier.refuting : Simplifier where
  eliminate db _ := if ∃ σ, satClauses σ db then some db else none
  unsat db frozen h σ hσ := by
    split at h
    · exact nomatch h
    · next hno => exact absurd ⟨σ, hσ⟩ hno
  sound db frozen simp h σ hσ := by
    split at h
    · cases h
      exact ⟨σ, rfl, fun _ _ ↦ rfl, hσ⟩
    · exact nomatch h
  complete db frozen simp h σ hσ := by
    split at h
    · cases h
      exact ⟨σ, rfl, fun _ _ ↦ rfl, hσ⟩
    · exact nomatch h
  vars db frozen simp h := by
    split at h
    · cases h
      exact Set.subset_union_left
    · exact nomatch h
  nonempty db frozen simp h cls hc hnil := by
    split at h
    · cases h
      obtain ⟨σ, hσ⟩ := ‹∃ σ, satClauses σ db›
      exact not_satClause_nil (hnil ▸ hσ cls hc)
    · exact nomatch h

def Simplifier.keep : Simplifier where
  eliminate db _ := if [] ∈ db then none else some db
  unsat db frozen h σ hσ := by
    split at h
    · exact not_satClause_nil (hσ [] ‹_›)
    · exact nomatch h
  sound db frozen simp h σ hσ := by
    split at h
    · exact nomatch h
    · cases h
      exact ⟨σ, rfl, fun _ _ ↦ rfl, hσ⟩
  complete db frozen simp h σ hσ := by
    split at h
    · exact nomatch h
    · cases h
      exact ⟨σ, rfl, fun _ _ ↦ rfl, hσ⟩
  vars db frozen simp h := by
    split at h
    · exact nomatch h
    · cases h
      exact Set.subset_union_left
  nonempty db frozen simp h cls hc := by
    split at h
    · exact nomatch h
    · rintro rfl
      cases h
      exact absurd hc ‹_›

variable {S : Simplifier} {db simp : ClauseVec} {frozen : List ℕ}

/-- A model is only needed where the formula eliminated from has a variable. -/
theorem exists_patch {f : ClauseVec} {σ τ : Assignment}
    (hvars : varsOf f ⊆ varsOf db ∪ {v | v ∈ frozen}) (hc : τ idFalse = σ idFalse)
    (hf : ∀ v ∈ frozen, τ v = σ v) (hτ : satClauses τ f) :
    ∃ ρ, ρ idFalse = σ idFalse ∧ (∀ v, v ∈ frozen ∨ v ∉ varsOf db → ρ v = σ v) ∧
      satClauses ρ f := by
  classical
  let ρ : Assignment := fun v ↦ if v ∈ varsOf db then τ v else σ v
  have hin : ∀ v ∈ varsOf db, ρ v = τ v := fun v hv ↦ if_pos hv
  have hout : ∀ v ∉ varsOf db, ρ v = σ v := fun v hv ↦ if_neg hv
  have heq : ∀ v, τ v = σ v → ρ v = σ v := by
    intro v hv
    by_cases h : v ∈ varsOf db
    · exact (hin v h).trans hv
    · exact hout v h
  refine ⟨ρ, heq _ hc, ?_, (satClauses_congr fun v hv ↦ ?_).mpr hτ⟩
  · rintro v (hv | hv)
    · exact heq v (hf v hv)
    · exact hout v hv
  · rcases hvars hv with hv | hv
    · exact hin v hv
    · exact (heq v (hf v hv)).trans (hf v hv).symm

/-- Elimination only forgets the values of variables that occur and are not frozen. -/
theorem Simplifier.sound_observable (h : S.eliminate db frozen = some simp) {σ : Assignment}
    (hσ : satClauses σ simp) :
    ∃ τ, τ idFalse = σ idFalse ∧ (∀ v, v ∈ frozen ∨ v ∉ varsOf db → τ v = σ v) ∧
      satClauses τ db := by
  obtain ⟨τ, hc, hf, hτ⟩ := S.sound db frozen simp h σ hσ
  exact exists_patch Set.subset_union_left hc hf hτ

theorem Simplifier.complete_observable (h : S.eliminate db frozen = some simp) {σ : Assignment}
    (hσ : satClauses σ db) :
    ∃ τ, τ idFalse = σ idFalse ∧ (∀ v, v ∈ frozen ∨ v ∉ varsOf db → τ v = σ v) ∧
      satClauses τ simp := by
  obtain ⟨τ, hc, hf, hτ⟩ := S.complete db frozen simp h σ hσ
  exact exists_patch (S.vars db frozen simp h) hc hf hτ

/-- A question about frozen variables, and variables that do not occur, has the same answer
after elimination. -/
theorem Simplifier.exists_iff (h : S.eliminate ([idTrue] :: db) frozen = some simp)
    (p : Assignment → Prop) (hp : ∀ σ τ : Assignment, τ idFalse = σ idFalse →
      (∀ v, v ∈ frozen ∨ v ∉ varsOf ([idTrue] :: db) → τ v = σ v) → p σ → p τ) :
    (∃ σ, satClauses σ ([idTrue] :: simp) ∧ p σ) ↔ ∃ σ, satClauses σ ([idTrue] :: db) ∧ p σ := by
  constructor
  · rintro ⟨σ, hσ, hpσ⟩
    obtain ⟨τ, hc, hf, hτ⟩ := S.sound_observable h ((satClauses_cons _ _).mp hσ).2
    exact ⟨τ, hτ, hp σ τ hc hf hpσ⟩
  · rintro ⟨σ, hσ, hpσ⟩
    obtain ⟨τ, hc, hf, hτ⟩ := S.complete_observable h hσ
    have htrue : satClause τ [idTrue] := by
      have hσt := ((satClauses_cons _ _).mp hσ).1
      simpa [hc] using hσt
    exact ⟨τ, (satClauses_cons _ _).mpr ⟨htrue, hτ⟩, hp σ τ hc hf hpσ⟩

end SAT

/-- `known` lists the keys of `m_IDToSATMap`, and entry `g - 1` of `groups` holds the clauses
of group `g`, which a query uses exactly when it is asked for this group. -/
structure SATAdaptor where
  clauses : ClauseVec
  groups : List ClauseVec
  known : List ℕ
  calls : ℕ

namespace SATAdaptor

def introduceVariable (ad : SATAdaptor) (id : ℕ) : SATAdaptor :=
  { ad with known := ad.known.insert (strip id) }

def introduceVariables (ad : SATAdaptor) (ids : List ℕ) : SATAdaptor :=
  ids.foldl introduceVariable ad

def reset (ad : SATAdaptor) : SATAdaptor :=
  { clauses := [[idTrue]], groups := [], known := [idFalse], calls := ad.calls }

def new : SATAdaptor := reset ⟨[], [], [], 0⟩

def addClause (ad : SATAdaptor) (cls : Clause) : Result SATAdaptor := do
  ensure (!cls.isEmpty)
  let ad := ad.introduceVariables cls
  return { ad with clauses := ad.clauses ++ [cls] }

def addClauses (ad : SATAdaptor) (vec : ClauseVec) : Result SATAdaptor :=
  vec.foldlM addClause ad

def createGroup (ad : SATAdaptor) : ℕ × SATAdaptor :=
  (ad.groups.length + 1, { ad with groups := ad.groups ++ [[]] })

def groupClauses (ad : SATAdaptor) (group : ℕ) : ClauseVec := ad.groups.getD (group - 1) []

def addGroupClause (ad : SATAdaptor) (group : ℕ) (cls : Clause) : Result SATAdaptor := do
  ensure (!cls.isEmpty)
  let ad := ad.introduceVariables cls
  return { ad with groups := ad.groups.modify (group - 1) (· ++ [cls]) }

def solve (S : SAT.Solver) (ad : SATAdaptor) (assumps : Cube) : SAT.Answer × SATAdaptor :=
  (S.solve ad.calls ad.clauses assumps,
    { ad.introduceVariables assumps with calls := ad.calls + 1 })

def groupSolve (S : SAT.Solver) (ad : SATAdaptor) (group : ℕ) (assumps : Cube) :
    SAT.Answer × SATAdaptor :=
  (S.solve ad.calls (ad.clauses ++ ad.groupClauses group) assumps,
    { ad.introduceVariables assumps with calls := ad.calls + 1 })

def hasSAT (ad : SATAdaptor) (lit : ℕ) : Bool := ad.known.contains (strip lit)

/-- `none` is `SAT::UNDEF`: the solver has never seen the variable. -/
def safeGetAssignment (ad : SATAdaptor) (m : Assignment) (lit : ℕ) : Option Bool :=
  if ad.hasSAT lit then some (litVal m lit) else none

def getAssignment (ad : SATAdaptor) (m : Assignment) (lit : ℕ) : Result Bool :=
  match ad.safeGetAssignment m lit with
  | some b => return b
  | none => throw .assertion

/-- The clauses and the trail of a simplifying solver after elimination with the variables of
these IDs frozen. -/
def simplify (Z : SAT.Simplifier) (ad : SATAdaptor) (frozen : List ℕ) : Result ClauseVec :=
  match Z.eliminate ad.clauses (frozen.map strip) with
  | some simp => return simp
  | none => throw .assertion

variable {ad ad' : SATAdaptor}

@[simp] theorem introduceVariables_clauses (ids : List ℕ) :
    (ad.introduceVariables ids).clauses = ad.clauses := by
  induction ids generalizing ad with
  | nil => rfl
  | cons id ids ih => exact ih

@[simp] theorem introduceVariables_groups (ids : List ℕ) :
    (ad.introduceVariables ids).groups = ad.groups := by
  induction ids generalizing ad with
  | nil => rfl
  | cons id ids ih => exact ih

@[simp] theorem introduceVariables_calls (ids : List ℕ) :
    (ad.introduceVariables ids).calls = ad.calls := by
  induction ids generalizing ad with
  | nil => rfl
  | cons id ids ih => exact ih

@[simp] theorem mem_introduceVariables {ids : List ℕ} {v : ℕ} :
    v ∈ (ad.introduceVariables ids).known ↔ v ∈ ad.known ∨ ∃ id ∈ ids, strip id = v := by
  induction ids generalizing ad with
  | nil => simp [introduceVariables]
  | cons id ids ih =>
    have h := @ih (ad.introduceVariable id)
    simp only [introduceVariables, List.foldl_cons] at h ⊢
    rw [h]
    simp only [introduceVariable, List.mem_insert_iff, List.exists_mem_cons_iff]
    constructor
    · rintro ((rfl | hv) | hv)
      exacts [.inr (.inl rfl), .inl hv, .inr (.inr hv)]
    · rintro (hv | rfl | hv)
      exacts [.inl (.inr hv), .inl (.inl rfl), .inr hv]

theorem addClause_meets {fail : Failure → Prop} {cls : Clause} (hc : cls ≠ []) :
    Meets (fun ad' ↦ ad'.clauses = ad.clauses ++ [cls] ∧ ad'.groups = ad.groups ∧
      ad'.calls = ad.calls ∧ ∀ v, v ∈ ad'.known ↔ v ∈ ad.known ∨ ∃ lit ∈ cls, strip lit = v)
      fail (ad.addClause cls) := by
  simp [addClause, ensure_nonempty hc]

theorem addClauses_meets {fail : Failure → Prop} {vec : ClauseVec} (hc : ∀ cls ∈ vec, cls ≠ []) :
    Meets (fun ad' ↦ ad'.clauses = ad.clauses ++ vec ∧ ad'.groups = ad.groups ∧
      ad'.calls = ad.calls ∧ ∀ v, v ∈ ad'.known ↔ v ∈ ad.known ∨ v ∈ varsOf vec)
      fail (ad.addClauses vec) := by
  induction vec generalizing ad with
  | nil => simp [addClauses, varsOf]
  | cons cls vec ih =>
    rw [addClauses, List.foldlM_cons]
    refine (addClause_meets (hc cls List.mem_cons_self)).bind fun ad₁ h₁ ↦ ?_
    obtain ⟨hcl, hg, hcalls, hk⟩ := h₁
    refine (ih fun c h ↦ hc c (List.mem_cons_of_mem _ h)).imp fun ad₂ h₂ ↦ ?_
    obtain ⟨hcl', hg', hcalls', hk'⟩ := h₂
    refine ⟨by rw [hcl', hcl, List.append_assoc]; rfl, hg'.trans hg, hcalls'.trans hcalls, ?_⟩
    intro v
    rw [hk', hk, or_assoc]
    simp [varsOf]

/-- A failed `addClauses` met an empty clause. -/
theorem addClauses_ok {vec : ClauseVec} (h : ad.addClauses vec = .ok ad') :
    ad'.clauses = ad.clauses ++ vec ∧ ∀ cls ∈ vec, cls ≠ [] := by
  induction vec generalizing ad with
  | nil =>
    cases h
    simp
  | cons cls vec ih =>
    rw [addClauses, List.foldlM_cons, bind_eq_ok] at h
    obtain ⟨ad₁, h₁, h₂⟩ := h
    have hc : cls ≠ [] := by
      rintro rfl
      cases h₁
    have hmeets : Meets _ (fun _ ↦ True) (ad.addClause cls) := addClause_meets hc
    obtain ⟨hcl, -⟩ := hmeets.of_ok h₁
    obtain ⟨hcl', hne⟩ := ih h₂
    exact ⟨by rw [hcl', hcl, List.append_assoc]; rfl, List.forall_mem_cons.mpr ⟨hc, hne⟩⟩

theorem simplify_meets {Z : SAT.Simplifier} {frozen : List ℕ} {fail : Failure → Prop}
    (hfail : (¬ ∃ σ, satClauses σ ad.clauses) → fail .assertion) :
    Meets (fun simp ↦ Z.eliminate ad.clauses (frozen.map strip) = some simp) fail
      (ad.simplify Z frozen) := by
  unfold simplify
  cases h : Z.eliminate ad.clauses (frozen.map strip) with
  | some simp => rfl
  | none =>
    apply hfail
    rintro ⟨σ, hσ⟩
    exact Z.unsat _ _ h σ hσ

@[simp] theorem solve_clauses (S : SAT.Solver) (assumps : Cube) :
    (ad.solve S assumps).2.clauses = ad.clauses := by simp [solve]

@[simp] theorem groupSolve_clauses (S : SAT.Solver) (group : ℕ) (assumps : Cube) :
    (ad.groupSolve S group assumps).2.clauses = ad.clauses := by simp [groupSolve]

theorem solve_valid (S : SAT.Solver) (assumps : Cube) :
    (ad.solve S assumps).1.Valid ad.clauses assumps := S.valid _ _ _

theorem solve_isSat (S : SAT.Solver) (assumps : Cube) :
    (ad.solve S assumps).1.isSat = true ↔ ∃ σ, satClauses σ ad.clauses ∧ satCube σ assumps :=
  (solve_valid S assumps).isSat_iff

/-- A query for a group made for one clause is a query with this clause added. -/
theorem groupSolve_valid (S : SAT.Solver) {group : ℕ} {cls : Clause} (assumps : Cube)
    (hg : ad.groupClauses group = [cls]) :
    (ad.groupSolve S group assumps).1.Valid (ad.clauses ++ [cls]) assumps := by
  have h := S.valid ad.calls (ad.clauses ++ ad.groupClauses group) assumps
  rw [hg] at h
  simpa only [groupSolve, hg] using h

/-- The group made by `createGroup` holds the clause then added to it and no other. -/
theorem addGroupClause_createGroup {fail : Failure → Prop} {cls : Clause} (hc : cls ≠ []) :
    Meets (fun ad' ↦ ad'.groupClauses ad.createGroup.1 = [cls] ∧ ad'.clauses = ad.clauses ∧
      ad'.calls = ad.calls ∧ ∀ v, v ∈ ad'.known ↔ v ∈ ad.known ∨ ∃ lit ∈ cls, strip lit = v)
      fail (ad.createGroup.2.addGroupClause ad.createGroup.1 cls) := by
  simp [addGroupClause, ensure_nonempty hc, createGroup, groupClauses, List.getD_eq_getElem?_getD]

end SATAdaptor

end PME
