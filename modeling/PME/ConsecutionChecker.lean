import PME.ClauseDatabase

namespace PME

open Outcome Support

inductive Consecution
  | holds (support : List ℕ)
  | fails (model : Assignment)

def Consecution.isHolding : Consecution → Bool
  | .holds _ => true
  | .fails _ => false

structure ConsecutionChecker where
  tr : TransitionRelation
  clausedb : ClauseDatabase Unit
  solver : SATAdaptor
  solverInited : Bool

namespace ConsecutionChecker

def new (tr : TransitionRelation) : ConsecutionChecker := ⟨tr, .new, .new, false⟩

def addClause (vm : VariableManager) (cc : ConsecutionChecker) (id : ℕ) (cls : Clause) :
    Result (VariableManager × ConsecutionChecker) := do
  let (act, vm) ← vm.getNewID 0
  let clausedb ← cc.clausedb.addClause id act cls ()
  let solver ← (if cc.solverInited then do
      cc.solver.addClause (getActivatedClause (← clausedb.entryOf id))
    else pure cc.solver : Result SATAdaptor)
  return (vm, { cc with clausedb := clausedb, solver := solver })

def clauseOf (cc : ConsecutionChecker) (id : ℕ) : Result Clause := cc.clausedb.clauseOf id

def initSolver (B : Backend) (cc : ConsecutionChecker) : Result ConsecutionChecker := do
  ensure (!cc.solverInited)
  let vec ← activatedFormula B cc.tr cc.clausedb.entries
  let solver ← cc.solver.addClauses vec
  return { cc with solver := solver, solverInited := true }

def supportOf (cc : ConsecutionChecker) (crits : Cube) : List ℕ :=
  crits.filterMap fun crit ↦
    (cc.clausedb.entries.find? (·.activation == crit)).map ClauseEntry.id

def activate (cc : ConsecutionChecker) (frame : List ℕ) (sorted : Clause) : Result (Cube × Bool) :=
  frame.foldlM (fun r id ↦ do
    let act ← cc.clausedb.activationOfID id
    let added ← cc.clauseOf id
    ensure (decide (added.Pairwise (· ≤ ·)))
    return (r.1 ++ [act], r.2 || added == sorted)) ([], false)

def supportSolve (B : Backend) (cc : ConsecutionChecker) (frame : List ℕ) (cls : Clause) :
    Result (Consecution × ConsecutionChecker) := do
  let cc ← (if cc.solverInited then pure cc else cc.initSolver B)
  let (acts, added) ← cc.activate frame (cls.insertionSort (· ≤ ·))
  let assumps := acts ++ cls.map fun lit ↦ negate (prime lit 1)
  let (answer, solver) ← (if added then pure (cc.solver.solve B.sat assumps) else do
    let (grp, solver) := cc.solver.createGroup
    let solver ← solver.addGroupClause grp cls
    return solver.groupSolve B.sat grp assumps : Result (SAT.Answer × SATAdaptor))
  let cc := { cc with solver := solver }
  match answer with
  | .sat m => return (.fails m, cc)
  | .unsat crits => return (.holds (cc.supportOf crits), cc)

def solve (B : Backend) (cc : ConsecutionChecker) (frame : List ℕ) (id : ℕ) :
    Result (Consecution × ConsecutionChecker) := do
  let cls ← cc.clauseOf id
  cc.supportSolve B frame cls

def carriesAll (B : Backend) (frame : List ℕ) :
    List ℕ → ConsecutionChecker → Result (Bool × ConsecutionChecker)
  | [], cc => return (true, cc)
  | id :: ids, cc => do
    let (answer, cc) ← cc.solve B frame id
    if answer.isHolding then carriesAll B frame ids cc else return (false, cc)

def isInductive (B : Backend) (cc : ConsecutionChecker) (frame : List ℕ) :
    Result (Bool × ConsecutionChecker) := carriesAll B frame frame cc

structure Rep (B : Backend) (tr : TransitionRelation) (cls : ℕ → Clause) (base : Finset ℕ) (n : ℕ)
    (vm : VariableManager) (cc : ConsecutionChecker) : Prop where
  tr_eq : cc.tr = tr
  vars : vm.Inv
  entered : Entered cls base n vm cc.clausedb.entries
  ids : ∀ c ∈ base, ∃ e ∈ cc.clausedb.entries, e.id = c
  start : cc.solverInited = false → cc.solver = .new
  solving : cc.solverInited = true → ¬ Refuted B tr cc.clausedb.entries ∧
    ∃ vec, FormulaAnswers tr cc.clausedb.entries vec ∧ cc.solver.clauses = [idTrue] :: vec ∧
      ∀ v ∈ varsOf cc.solver.clauses, v ∈ cc.solver.known

def Tautology (c : Clause) : Prop := ∃ lit ∈ c, negate lit ∈ c

instance (c : Clause) : Decidable (Tautology c) := inferInstanceAs (Decidable (∃ lit ∈ c, negate lit ∈ c))

variable {B : Backend} {tr : TransitionRelation} {cls : ℕ → Clause} {base : Finset ℕ} {n : ℕ}
  {vm vm' : VariableManager} {cc : ConsecutionChecker} {fail : Failure → Prop}

structure Building (tr : TransitionRelation) (cls : ℕ → Clause) (base : Finset ℕ) (n : ℕ)
    (vm : VariableManager) (cc : ConsecutionChecker) : Prop where
  tr_eq : cc.tr = tr
  entered : Entered cls base n vm cc.clausedb.entries
  solver : cc.solver = .new
  solverInited : cc.solverInited = false

theorem building_new : Building tr cls base n vm (new tr) := ⟨rfl, Entered.nil, rfl, rfl⟩

theorem Building.mono (h : Building tr cls base n vm cc) (hle : vm.nextID ≤ vm'.nextID) :
    Building tr cls base n vm' cc := { h with entered := h.entered.mono hle }

theorem Building.addClause (h : Building tr cls base n vm cc) (hvm : vm.Inv) (hn : n ≤ vm.nextID)
    {c : ℕ} (hc : c ∈ base) (hnew : c ∉ cc.clausedb.entries.map ClauseEntry.id)
    (hids : maxId < vm.nextID → fail .idsExhausted) :
    Meets (fun r ↦ r.1.Inv ∧ r.1.nextID = vm.nextID + 2 ∧ Building tr cls base n r.1 r.2 ∧
      r.2.clausedb.entries.map ClauseEntry.id = cc.clausedb.entries.map ClauseEntry.id ++ [c]) fail
      (cc.addClause vm c (cls c)) := by
  unfold ConsecutionChecker.addClause
  refine (VariableManager.getNewID_meets hvm rfl (absurd rfl) hids).bind fun r hr ↦ ?_
  obtain ⟨act, vm'⟩ := r
  have hact : act = vm.nextID := hr.id_eq
  have hnext : vm'.nextID = vm.nextID + 2 := hr.nextID
  have hfresh : act ∉ cc.clausedb.entries.map ClauseEntry.activation := by
    intro hmem
    obtain ⟨e, he, heq⟩ := List.mem_map.mp hmem
    have hlt := (h.entered.act e he).2.2
    omega
  refine (ClauseDatabase.addClause_meets hnew hfresh).bind fun db hdb ↦ ?_
  rw [h.solverInited, if_neg Bool.false_ne_true]
  refine ⟨hr.inv, hnext, ⟨h.tr_eq, ?_, h.solver, rfl⟩, ?_⟩
  · dsimp only
    rw [hdb]
    exact h.entered.add hc hnew hn hvm.even hact (by omega)
  · dsimp only
    rw [hdb, List.map_append]
    rfl

theorem Building.rep (h : Building tr cls base n vm cc) (hvm : vm.Inv)
    (hids : ∀ c ∈ base, c ∈ cc.clausedb.entries.map ClauseEntry.id) : Rep B tr cls base n vm cc where
  tr_eq := h.tr_eq
  vars := hvm
  entered := h.entered
  ids c hc := List.mem_map.mp (hids c hc)
  start _ := h.solver
  solving hi := absurd (h.solverInited.symm.trans hi) Bool.false_ne_true

theorem initSolver_meets (h : Rep B tr cls base n vm cc) (hc : Checkable tr cls base n)
    (hi : cc.solverInited = false) (hfail : Refuted B tr cc.clausedb.entries → fail .assertion) :
    Meets (fun cc' ↦ Rep B tr cls base n vm cc' ∧ cc'.solverInited = true ∧
      cc'.clausedb = cc.clausedb) fail (cc.initSolver B) := by
  unfold initSolver
  rw [hi, Bool.not_false, ensure_true, ok_bind, h.tr_eq]
  refine (activatedFormula_meets (hc.suits h.entered h.vars) B hfail).bind fun vec hvec ↦ ?_
  obtain ⟨hvec, hno⟩ := hvec
  refine (SATAdaptor.addClauses_meets hvec.nonempty).bind fun ad had ↦ ?_
  obtain ⟨hcl, -, -, hknown⟩ := had
  rw [h.start hi] at hcl hknown
  have hcl' : ad.clauses = [idTrue] :: vec := hcl
  refine ⟨⟨rfl, h.vars, h.entered, h.ids, nofun, fun _ ↦ ⟨hno, vec, hvec, hcl', fun v hv ↦ ?_⟩⟩,
    rfl, rfl⟩
  dsimp only at hv
  rw [hcl'] at hv
  obtain ⟨c, hcm, lit, hl, rfl⟩ := hv
  cases List.mem_cons.mp hcm with
  | inl heq =>
    rw [heq, List.mem_singleton] at hl
    rw [hl, strip_idTrue]
    exact (hknown _).mpr (.inl (List.mem_singleton_self _))
  | inr hcm => exact (hknown _).mpr (.inr (mem_varsOf hcm hl))

section Queries

theorem Rep.entry_meets (h : Rep B tr cls base n vm cc) {e : ClauseEntry Unit}
    (he : e ∈ cc.clausedb.entries) :
    cc.clauseOf e.id = .ok e.clause ∧ cc.clausedb.activationOfID e.id = .ok e.activation := by
  have hmeets : Meets (· = e) (fun _ ↦ False) (cc.clausedb.entryOf e.id) :=
    ClauseDatabase.entryOf_meets h.entered.ids_nodup he
  obtain ⟨e', hok, rfl⟩ := hmeets.exists_ok
  unfold clauseOf ClauseDatabase.clauseOf ClauseDatabase.activationOfID
  rw [hok]
  exact ⟨rfl, rfl⟩

theorem Rep.activate_meets (h : Rep B tr cls base n vm cc) {frame : List ℕ} (hframe : ∀ c ∈ frame, c ∈ base)
    (sorted : Clause) :
    Meets (fun r ↦ (∀ act, act ∈ r.1 ↔
        ∃ e ∈ cc.clausedb.entries, e.id ∈ frame ∧ e.activation = act) ∧
      (r.2 = true ↔ ∃ e ∈ cc.clausedb.entries, e.id ∈ frame ∧ e.clause = sorted)) fail
      (cc.activate frame sorted) := by
  refine foldlM_meets (fun done r ↦ (∀ act, act ∈ r.1 ↔
      ∃ e ∈ cc.clausedb.entries, e.id ∈ done ∧ e.activation = act) ∧
    (r.2 = true ↔ ∃ e ∈ cc.clausedb.entries, e.id ∈ done ∧ e.clause = sorted)) ([], false) ?_ ?_
  · refine ⟨fun act ↦ ⟨fun hact ↦ absurd hact List.not_mem_nil, ?_⟩, nofun, ?_⟩
    · intro hex
      obtain ⟨e, -, hmem, -⟩ := hex
      exact absurd hmem List.not_mem_nil
    · intro hex
      obtain ⟨e, -, hmem, -⟩ := hex
      exact absurd hmem List.not_mem_nil
  · intro done c rest r hl hr
    obtain ⟨hacts, hadded⟩ := hr
    have hc : c ∈ frame := hl ▸ List.mem_append_right _ List.mem_cons_self
    obtain ⟨e, he, rfl⟩ := h.ids c (hframe c hc)
    obtain ⟨hclause, hact⟩ := h.entry_meets he
    have hsorted : decide (e.clause.Pairwise (· ≤ ·)) = true := by
      rw [decide_eq_true_iff, h.entered.clause e he]
      exact List.pairwise_insertionSort (· ≤ ·) _
    rw [hact, ok_bind, hclause, ok_bind, hsorted, ensure_true, ok_bind, meets_pure]
    refine ⟨fun act ↦ ?_, ?_⟩
    · rw [List.mem_append, hacts, List.mem_singleton]
      constructor
      · intro hor
        cases hor with
        | inl hex =>
          obtain ⟨d, hd, hmem, heq⟩ := hex
          exact ⟨d, hd, List.mem_append_left _ hmem, heq⟩
        | inr heq =>
          exact ⟨e, he, List.mem_append_right _ (List.mem_singleton_self _), heq.symm⟩
      · intro hex
        obtain ⟨d, hd, hmem, heq⟩ := hex
        cases List.mem_append.mp hmem with
        | inl hmem => exact .inl ⟨d, hd, hmem, heq⟩
        | inr hmem =>
          have hsame : d = e := h.entered.unique hd he (List.mem_singleton.mp hmem)
          exact .inr (hsame ▸ heq.symm)
    · rw [Bool.or_eq_true, hadded, beq_iff_eq]
      constructor
      · intro hor
        cases hor with
        | inl hex =>
          obtain ⟨d, hd, hmem, heq⟩ := hex
          exact ⟨d, hd, List.mem_append_left _ hmem, heq⟩
        | inr heq => exact ⟨e, he, List.mem_append_right _ (List.mem_singleton_self _), heq⟩
      · intro hex
        obtain ⟨d, hd, hmem, heq⟩ := hex
        cases List.mem_append.mp hmem with
        | inl hmem => exact .inl ⟨d, hd, hmem, heq⟩
        | inr hmem =>
          have hsame : d = e := h.entered.unique hd he (List.mem_singleton.mp hmem)
          exact .inr (hsame ▸ heq)

def Active (entries : List (ClauseEntry Unit)) (frame : List ℕ) (σ : Assignment) : Prop :=
  ∀ e ∈ entries, e.id ∈ frame → σ e.activation = true

/-- Together with the clause itself the clauses of `s` carry it over to the next frame. -/
def Carries (tr : TransitionRelation) (cls : ℕ → Clause) (s : Finset ℕ) (c : Clause) : Prop :=
  ∀ x y, tr.Linked x y → (∀ d ∈ s, satClause x (cls d)) → satClause x c → satClause y c

theorem upward_carries (c : Clause) : Monotone fun s ↦ Carries tr cls s c :=
  fun _ _ hst hs x y hxy hall ↦ hs x y hxy fun d hd ↦ hall d (hst hd)

theorem carries_congr {s : Finset ℕ} {c c' : Clause} (h : ∀ lit, lit ∈ c ↔ lit ∈ c') :
    Carries tr cls s c ↔ Carries tr cls s c' := by
  have hsat : ∀ x : Assignment, satClause x c ↔ satClause x c' := fun x ↦
    exists_congr fun lit ↦ and_congr_left fun _ ↦ h lit
  unfold Carries
  simp only [hsat]

theorem Rep.not_carries (h : Rep B tr cls base n vm cc) (hc : Checkable tr cls base n) {vec now : ClauseVec}
    (hvec : FormulaAnswers tr cc.clausedb.entries vec) (hnow : ∀ c ∈ now, ∀ lit ∈ c, Own tr lit)
    {frame : List ℕ} (hframe : ∀ c ∈ frame, c ∈ base) {c : Clause} (hask : ∀ lit ∈ c, MayAsk tr lit)
    (hself : ∀ x : Assignment, (∀ d ∈ cc.clausedb.entries, d.id ∈ frame →
      satClause x d.clause) → satClauses x now → satClause x c) {σ : Assignment}
    (hσ : satClauses σ ([idTrue] :: vec)) (hcls : satClauses σ now)
    (hon : Active cc.clausedb.entries frame σ) (hfails : satCube σ (failsNext c)) :
    ¬ Carries tr cls frame.toFinset c := by
  have hsuits := hc.suits h.entered h.vars
  obtain ⟨A, x, y, hA, hlink, hclauses, hx, hno⟩ := (hvec.exists_now_iff hsuits hnow hask
    (Active cc.clausedb.entries frame) fun σ τ hsame hσ d hd hdf ↦
      (hsame _ (hsuits.fresh hd)).trans (hσ d hd hdf)).mp ⟨σ, hσ, hcls, hon, hfails⟩
  have hholds : ∀ d ∈ cc.clausedb.entries, d.id ∈ frame → satClause x d.clause :=
    fun d hd hdf ↦ hclauses d hd (hA d hd hdf)
  intro hsup
  refine hno (hsup x y hlink (fun a ha ↦ ?_) (hself x hholds hx))
  have haf := List.mem_toFinset.mp ha
  obtain ⟨d, hd, rfl⟩ := h.ids a (hframe a haf)
  exact (h.entered.satClause hd).mp (hholds d hd haf)

theorem Rep.exists_model (h : Rep B tr cls base n vm cc) (hc : Checkable tr cls base n) {vec now : ClauseVec}
    (hvec : FormulaAnswers tr cc.clausedb.entries vec) (hnow : ∀ c ∈ now, ∀ lit ∈ c, Own tr lit)
    {frame : List ℕ} {c : Clause} (hask : ∀ lit ∈ c, MayAsk tr lit)
    (hself : ∀ x : Assignment, satClause x c → satClauses x now)
    (hno : ¬ Carries tr cls frame.toFinset c) :
    ∃ σ, satClauses σ ([idTrue] :: vec) ∧ satClauses σ now ∧ Active cc.clausedb.entries frame σ ∧
      satCube σ (failsNext c) := by
  classical
  have hsuits := hc.suits h.entered h.vars
  refine (hvec.exists_now_iff hsuits hnow hask (Active cc.clausedb.entries frame)
    fun σ τ hsame hσ d hd hdf ↦ (hsame _ (hsuits.fresh hd)).trans (hσ d hd hdf)).mpr ?_
  unfold Carries at hno
  push Not at hno
  obtain ⟨x, y, hlink, hall, hx, hlost⟩ := hno
  let A : Assignment := fun v ↦ decide (∃ d ∈ cc.clausedb.entries, d.activation = v ∧ d.id ∈ frame)
  have hA : ∀ v, A v = true ↔ ∃ d ∈ cc.clausedb.entries, d.activation = v ∧ d.id ∈ frame :=
    fun v ↦ decide_eq_true_iff
  refine ⟨A, x, y, fun d hd hdf ↦ (hA _).mpr ⟨d, hd, rfl, hdf⟩, hlink, fun d hd hon ↦ ?_, hself x hx, hlost⟩
  obtain ⟨d', hd', heq, hdf⟩ := (hA _).mp hon
  have hsame : d' = d := List.inj_on_of_nodup_map h.entered.acts_nodup hd' hd heq
  exact (h.entered.satClause hd).mpr (hall _ (List.mem_toFinset.mpr (hsame ▸ hdf)))

theorem Rep.mem_supportOf (h : Rep B tr cls base n vm cc) {crits : Cube} {c : ℕ} :
    c ∈ cc.supportOf crits ↔ ∃ e ∈ cc.clausedb.entries, e.id = c ∧ e.activation ∈ crits := by
  unfold supportOf
  rw [List.mem_filterMap]
  constructor
  · intro hex
    obtain ⟨crit, hcrit, hmap⟩ := hex
    obtain ⟨e, hfind, rfl⟩ := Option.map_eq_some_iff.mp hmap
    have hact : e.activation = crit := by simpa using List.find?_some hfind
    exact ⟨e, List.mem_of_find?_eq_some hfind, rfl, hact ▸ hcrit⟩
  · intro hex
    obtain ⟨e, he, rfl, hcrit⟩ := hex
    refine ⟨e.activation, hcrit, Option.map_eq_some_iff.mpr ?_⟩
    obtain ⟨e', hfind⟩ : ∃ e', cc.clausedb.entries.find? (·.activation == e.activation) = some e' :=
      Option.isSome_iff_exists.mp (List.find?_isSome.mpr ⟨e, he, beq_self_eq_true _⟩)
    have hact : e'.activation = e.activation := by simpa using List.find?_some hfind
    have heq : e' = e :=
      List.inj_on_of_nodup_map h.entered.acts_nodup (List.mem_of_find?_eq_some hfind) he hact
    exact ⟨e', hfind, congrArg ClauseEntry.id heq⟩

theorem Rep.nodup_supportOf (h : Rep B tr cls base n vm cc) {crits : Cube} (hcrits : crits.Nodup) :
    (cc.supportOf crits).Nodup := by
  refine hcrits.filterMap fun crit crit' c hc hc' ↦ ?_
  obtain ⟨e, hfind, rfl⟩ := Option.map_eq_some_iff.mp (Option.mem_def.mp hc)
  obtain ⟨e', hfind', heq⟩ := Option.map_eq_some_iff.mp (Option.mem_def.mp hc')
  have hsame : e' = e := h.entered.unique (List.mem_of_find?_eq_some hfind')
    (List.mem_of_find?_eq_some hfind) heq
  have hact : e.activation = crit := by simpa using List.find?_some hfind
  have hact' : e'.activation = crit' := by simpa using List.find?_some hfind'
  rw [← hact, ← hact', hsame]

theorem Rep.act_not_mem (h : Rep B tr cls base n vm cc) (hc : Checkable tr cls base n)
    {d : ClauseEntry Unit} (hd : d ∈ cc.clausedb.entries) {c : Clause} (hask : ∀ lit ∈ c, MayAsk tr lit) :
    d.activation ∉ failsNext c := by
  intro hmem
  obtain ⟨nlit, hn, heq⟩ := List.mem_map.mp hmem
  obtain ⟨lit, hl, rfl⟩ := List.mem_map.mp hn
  have hvalid := (hask lit hl).1
  have hsuits := hc.suits h.entered h.vars
  have hact := hsuits.act d hd
  obtain hlow | hge := Nat.lt_or_ge (negate lit) minId
  · rw [prime_of_lt hlow] at heq
    omega
  · rw [prime_of_ge hge (negate_le hvalid.2), maxId_eq] at *
    omega

/-- What a query leaves: an answer that is right, and in a model the values of literals of the
next frame by which other unsupported clauses of the frame are recognized. -/
structure Answered (tr : TransitionRelation) (cls : ℕ → Clause) (frame : List ℕ) (c : Clause)
    (cc : ConsecutionChecker) (answer : Consecution) : Prop where
  iff : answer.isHolding = true ↔ Carries tr cls frame.toFinset c
  lost : ∀ m, answer = .fails m → ∀ d ∈ frame, ¬ Tautology (cls d) →
    (∀ lit ∈ cls d, cc.solver.safeGetAssignment m (negate (prime lit 1)) ≠ some false) →
      ¬ Supports tr cls frame.toFinset d
  self : ∀ m, answer = .fails m →
    ∀ lit ∈ c, cc.solver.safeGetAssignment m (negate (prime lit 1)) ≠ some false
  support : ∀ s, answer = .holds s → s.Nodup ∧ s ⊆ frame ∧ Carries tr cls s.toFinset c

theorem map_negate_prime {c : Clause} (hc : ∀ lit ∈ c, ValidLit lit) :
    c.map (fun lit ↦ negate (prime lit 1)) = failsNext c := by
  rw [failsNext, negateVec, primeVec, primeClause, List.map_map]
  exact List.map_congr_left fun lit hl ↦ (prime_negate (hc lit hl).2 1).symm

/-- The variables that are not known can be given the values by which the clause is lost. -/
theorem exists_lost {db : ClauseVec} {known : List ℕ} (hknown : ∀ v ∈ varsOf db, v ∈ known) {m : Assignment}
    (hm : satClauses m db) {c : Clause} (hc : ∀ lit ∈ c, ValidLit lit) (htaut : ¬ Tautology c)
    (hlost : ∀ lit ∈ c, strip (prime lit 1) ∈ known → litVal m (prime lit 1) = false) :
    ∃ σ, satClauses σ db ∧ (∀ v ∈ known, σ v = m v) ∧ satCube σ (failsNext c) := by
  classical
  let σ : Assignment := fun v ↦ if v ∈ known then m v else decide (∃ lit ∈ c, negate (prime lit 1) = v)
  have hold : ∀ v ∈ known, σ v = m v := fun v hv ↦ if_pos hv
  refine ⟨σ, (satClauses_congr fun v hv ↦ hold v (hknown v hv)).mpr hm, hold, ?_⟩
  rw [← map_negate_prime hc]
  intro nlit hn
  obtain ⟨lit, hl, rfl⟩ := List.mem_map.mp hn
  rw [litVal_negate, Bool.not_eq_true']
  by_cases hk : strip (prime lit 1) ∈ known
  · rw [litVal_congr (hold _ hk)]
    exact hlost lit hl hk
  · have hval : σ (strip (prime lit 1)) = decide (∃ l ∈ c, negate (prime l 1) = strip (prime lit 1)) :=
      if_neg hk
    have hneg : isNegated (prime lit 1) = isNegated lit := isNegated_prime (hc lit hl).2 1
    rw [litVal, hval, hneg]
    cases hs : isNegated lit with
    | true =>
      rw [Bool.xor_true, Bool.not_eq_false', decide_eq_true_iff]
      refine ⟨lit, hl, ?_⟩
      rw [strip, hneg, hs, if_pos rfl]
    | false =>
      rw [Bool.xor_false, decide_eq_false_iff_not]
      intro hex
      obtain ⟨l, hmem, heq⟩ := hex
      rw [strip, hneg, hs, if_neg Bool.false_ne_true] at heq
      refine htaut ⟨l, hmem, ?_⟩
      have hlow : negate l = lit := by
        rw [← prime_negate (hc l hmem).2] at heq
        rw [← unprime_prime (negate_le (hc l hmem).2) 1, heq, unprime_prime (hc lit hl).2]
      exact hlow ▸ hl

/-- The answer of the solver to the query, in either of the two ways to ask it. -/
theorem query_meets {c : Clause} {added : Bool} {assumps : Cube} {now : ClauseVec}
    (hnow : now = if added then [] else [c]) (hempty : added = false → c = [] → fail .assertion) :
    Meets (fun (p : SAT.Answer × SATAdaptor) ↦ p.1.Valid (cc.solver.clauses ++ now) assumps ∧
      p.2.clauses = cc.solver.clauses ∧
      ∀ v, v ∈ cc.solver.known ∨ (∃ id ∈ assumps, strip id = v) → v ∈ p.2.known) fail
      (if added then pure (cc.solver.solve B.sat assumps) else do
        let (grp, solver) := cc.solver.createGroup
        let solver ← solver.addGroupClause grp c
        return solver.groupSolve B.sat grp assumps : Result (SAT.Answer × SATAdaptor)) := by
  cases added with
  | true =>
    rw [if_pos rfl] at hnow ⊢
    subst hnow
    rw [meets_pure, List.append_nil]
    exact ⟨SATAdaptor.solve_valid B.sat assumps, SATAdaptor.solve_clauses B.sat assumps,
      fun v hv ↦ SATAdaptor.mem_introduceVariables.mpr hv⟩
  | false =>
    rw [if_neg Bool.false_ne_true] at hnow ⊢
    subst hnow
    by_cases hnil : c = []
    · subst hnil
      exact hempty rfl rfl
    · refine (SATAdaptor.addGroupClause_createGroup hnil).bind fun ad had ↦ ?_
      obtain ⟨hgroup, hclauses, -, hknown⟩ := had
      have hvalid := ad.groupSolve_valid B.sat assumps hgroup
      rw [hclauses] at hvalid
      refine ⟨hvalid, (ad.groupSolve_clauses B.sat _ assumps).trans hclauses, fun v hv ↦ ?_⟩
      exact SATAdaptor.mem_introduceVariables.mpr (hv.imp_left fun hv ↦ (hknown v).mpr (.inl hv))

def Askable (tr : TransitionRelation) (cls : ℕ → Clause) (fail : Failure → Prop) (frame : List ℕ)
    (c : Clause) : Prop :=
  (∀ lit ∈ c, MayAsk tr lit) ∧
    ((∃ d ∈ frame, (cls d).insertionSort (· ≤ ·) = c.insertionSort (· ≤ ·)) ∨
      (∀ lit ∈ c, Own tr lit) ∧ (c = [] → fail .assertion))

theorem inited_meets (h : Rep B tr cls base n vm cc) (hc : Checkable tr cls base n)
    (hi : cc.solverInited = true) {frame : List ℕ} (hframe : ∀ c ∈ frame, c ∈ base) {c : Clause}
    (hask : Askable tr cls fail frame c) :
    Meets (fun r ↦ Rep B tr cls base n vm r.2 ∧ r.2.solverInited = true ∧
      r.2.clausedb = cc.clausedb ∧ Answered tr cls frame c r.2 r.1) fail (cc.supportSolve B frame c) := by
  obtain ⟨hno, vec, hvec, hcl, hknown⟩ := h.solving hi
  obtain ⟨hask, hway⟩ := hask
  unfold supportSolve
  rw [if_pos hi, pure_bind]
  refine (h.activate_meets hframe (c.insertionSort (· ≤ ·))).bind fun r hr ↦ ?_
  obtain ⟨acts, added⟩ := r
  obtain ⟨hacts, hadded⟩ := hr
  dsimp only at hacts hadded ⊢
  have hout : added = false → (∀ lit ∈ c, Own tr lit) ∧ (c = [] → fail .assertion) := by
    intro hb
    refine hway.resolve_left fun hex ↦ ?_
    obtain ⟨d, hd, heq⟩ := hex
    obtain ⟨e, he, rfl⟩ := h.ids d (hframe d hd)
    exact Bool.false_ne_true (hb.symm.trans (hadded.mpr ⟨e, he, hd, (h.entered.clause e he).trans heq⟩))
  have hvalid : ∀ lit ∈ c, ValidLit lit := fun lit hl ↦ (hask lit hl).1
  rw [map_negate_prime hvalid]
  have hactive : ∀ σ, satCube σ acts ↔ Active cc.clausedb.entries frame σ := by
    intro σ
    constructor
    · intro hsat d hd hdf
      have hv := hsat d.activation ((hacts _).mpr ⟨d, hd, hdf, rfl⟩)
      rwa [litVal_of_even (h.entered.act d hd).1] at hv
    · intro hon act hact
      obtain ⟨d, hd, hdf, rfl⟩ := (hacts act).mp hact
      rw [litVal_of_even (h.entered.act d hd).1]
      exact hon d hd hdf
  obtain ⟨now, hnow⟩ : ∃ now : ClauseVec, now = if added then [] else [c] := ⟨_, rfl⟩
  have hnowOwn : ∀ d ∈ now, ∀ lit ∈ d, Own tr lit := by
    intro d hd lit hl
    cases hb : added with
    | true =>
      rw [hnow, hb, if_pos rfl] at hd
      exact absurd hd List.not_mem_nil
    | false =>
      rw [hnow, hb, if_neg Bool.false_ne_true, List.mem_singleton] at hd
      exact (hout hb).1 lit (hd ▸ hl)
  have hself : ∀ x : Assignment, (∀ d ∈ cc.clausedb.entries, d.id ∈ frame → satClause x d.clause) →
      satClauses x now → satClause x c := by
    intro x hall hx
    cases hb : added with
    | true =>
      obtain ⟨d, hd, hdf, heq⟩ := hadded.mp hb
      obtain ⟨lit, hl, hv⟩ := hall d hd hdf
      exact ⟨lit, (List.perm_insertionSort (· ≤ ·) c).mem_iff.mp (heq ▸ hl), hv⟩
    | false =>
      rw [hnow, hb, if_neg Bool.false_ne_true] at hx
      exact hx _ (List.mem_singleton_self _)
  have hself' : ∀ x : Assignment, satClause x c → satClauses x now := by
    intro x hx d hd
    rw [hnow] at hd
    cases hb : added with
    | true =>
      rw [hb, if_pos rfl] at hd
      exact absurd hd List.not_mem_nil
    | false =>
      rw [hb, if_neg Bool.false_ne_true, List.mem_singleton] at hd
      exact hd ▸ hx
  refine (query_meets hnow fun hb ↦ (hout hb).2).bind fun p hp ↦ ?_
  obtain ⟨answer, solver⟩ := p
  obtain ⟨hans, hcl', hknown'⟩ := hp
  dsimp only at hans hcl' hknown' ⊢
  have hvars : ∀ v ∈ varsOf solver.clauses, v ∈ solver.known := fun v hv ↦
    hknown' v (.inl (hknown v (hcl' ▸ hv)))
  have hrep : Rep B tr cls base n vm { cc with solver := solver } :=
    ⟨h.tr_eq, h.vars, h.entered, h.ids, fun hf ↦ absurd (hi.symm.trans hf) Bool.true_eq_false.mp,
      fun _ ↦ ⟨hno, vec, hvec, hcl'.trans hcl, hvars⟩⟩
  rw [hcl] at hans
  cases answer with
  | unsat crits =>
    obtain ⟨hsub, hnodup, hcore⟩ := hans
    have hsupport : Carries tr cls (cc.supportOf crits).toFinset c := by
      by_contra hlost
      obtain ⟨σ, hσ, hcls, hon, hfails⟩ := h.exists_model hc hvec hnowOwn hask hself' hlost
      refine hcore σ ((satClauses_append _ _).mpr ⟨hσ, hcls⟩) fun crit hcrit ↦ ?_
      cases List.mem_append.mp (hsub hcrit) with
      | inl hact =>
        obtain ⟨d, hd, -, rfl⟩ := (hacts crit).mp hact
        rw [litVal_of_even (h.entered.act d hd).1]
        exact hon d hd (h.mem_supportOf.mpr ⟨d, hd, rfl, hcrit⟩)
      | inr hfail => exact hfails crit hfail
    have hmem : cc.supportOf crits ⊆ frame := by
      intro a ha
      obtain ⟨d, hd, rfl, hcrit⟩ := h.mem_supportOf.mp ha
      cases List.mem_append.mp (hsub hcrit) with
      | inl hact =>
        obtain ⟨d', hd', hdf, heq⟩ := (hacts _).mp hact
        have hsame : d' = d := List.inj_on_of_nodup_map h.entered.acts_nodup hd' hd heq
        exact hsame ▸ hdf
      | inr hfail => exact absurd hfail (h.act_not_mem hc hd hask)
    refine ⟨hrep, hi, rfl, ⟨fun _ ↦ ?_, fun _ ↦ rfl⟩, nofun, nofun, fun s hs ↦ ?_⟩
    · exact upward_carries c (fun a ha ↦ List.mem_toFinset.mpr (hmem (List.mem_toFinset.mp ha))) hsupport
    · cases hs
      exact ⟨h.nodup_supportOf hnodup, hmem, hsupport⟩
  | sat m =>
    obtain ⟨hm, hassump⟩ := hans
    obtain ⟨hm, hmnow⟩ := (satClauses_append _ _).mp hm
    obtain ⟨hon, hfails⟩ := (satCube_append _ _).mp hassump
    have hlost : ¬ Carries tr cls frame.toFinset c :=
      h.not_carries hc hvec hnowOwn hframe hask hself hm hmnow ((hactive m).mp hon) hfails
    refine ⟨hrep, hi, rfl, ⟨nofun, fun hsup ↦ absurd hsup hlost⟩, fun m' hm' d hd htaut hall ↦ ?_,
      fun m' hm' lit hl ↦ ?_, nofun⟩
    · cases hm'
      have hd' := hframe d hd
      have hdb : satClauses m solver.clauses := by
        rw [hcl', hcl]
        exact hm
      obtain ⟨σ, hσ, hsame, hfails'⟩ := exists_lost hvars hdb (fun lit hl ↦ (hc.lits d hd' lit hl).1.1)
        htaut fun lit hl hk ↦ by
        have hval := hall lit hl
        rw [SATAdaptor.safeGetAssignment, SATAdaptor.hasSAT, strip_negate,
          if_pos (List.contains_iff_mem.mpr hk), litVal_negate] at hval
        cases hv : litVal m (prime lit 1) with
        | false => rfl
        | true => exact absurd (congrArg (fun b ↦ some (!b)) hv) hval
      have hself'' : ∀ x : Assignment, (∀ a ∈ cc.clausedb.entries, a.id ∈ frame → satClause x a.clause) →
          satClauses x [] → satClause x (cls d) := by
        intro x hx _
        obtain ⟨e, he, rfl⟩ := h.ids d hd'
        exact (h.entered.satClause he).mp (hx e he hd)
      refine h.not_carries hc hvec (fun a ha ↦ absurd ha List.not_mem_nil) hframe
        (fun lit hl ↦ (hc.lits d hd' lit hl).1) hself'' (σ := σ) ?_ satClauses_nil
        (fun a ha haf ↦ ?_) hfails'
      · rw [← hcl, ← hcl']
        exact hσ
      · have hka : a.activation ∈ solver.known := by
          refine hknown' _ (.inr ⟨a.activation, List.mem_append_left _ ?_, ?_⟩)
          · exact (hacts _).mpr ⟨a, ha, haf, rfl⟩
          · exact strip_of_even (h.entered.act a ha).1
        rw [hsame _ hka]
        exact (hactive m).mp hon a ha haf
    · cases hm'
      have hv := hfails (negate (prime lit 1)) (by
        rw [← map_negate_prime hvalid]
        exact List.mem_map_of_mem hl)
      rw [SATAdaptor.safeGetAssignment]
      split
      · rw [hv]
        exact fun hno ↦ Bool.false_ne_true (Option.some_inj.mp hno).symm
      · exact nofun

theorem supportSolve_meets (h : Rep B tr cls base n vm cc) (hc : Checkable tr cls base n)
    (hfail : Refuted B tr cc.clausedb.entries → fail .assertion) {frame : List ℕ}
    (hframe : ∀ c ∈ frame, c ∈ base) {c : Clause} (hask : Askable tr cls fail frame c) :
    Meets (fun r ↦ Rep B tr cls base n vm r.2 ∧ r.2.solverInited = true ∧
      r.2.clausedb = cc.clausedb ∧ Answered tr cls frame c r.2 r.1) fail (cc.supportSolve B frame c) := by
  cases hi : cc.solverInited with
  | true => exact inited_meets h hc hi hframe hask
  | false =>
    have heq : cc.supportSolve B frame c = cc.initSolver B >>= fun cc ↦ cc.supportSolve B frame c := by
      unfold supportSolve
      rw [hi, if_neg Bool.false_ne_true]
      cases hinit : cc.initSolver B with
      | error err => rfl
      | ok cc' =>
        have hi' : cc'.solverInited = true := by
          unfold initSolver at hinit
          rw [hi, Bool.not_false, ensure_true, ok_bind] at hinit
          obtain ⟨vec, -, hinit⟩ := bind_eq_ok.mp hinit
          obtain ⟨ad, -, hinit⟩ := bind_eq_ok.mp hinit
          cases hinit
          rfl
        rw [ok_bind, ok_bind, if_pos hi', pure_bind]
    rw [heq]
    refine (initSolver_meets h hc hi hfail).bind fun cc' hcc' ↦ ?_
    obtain ⟨h', hi', hdb⟩ := hcc'
    have hsolve : Meets _ fail _ := inited_meets h' hc hi' hframe hask
    exact hsolve.imp fun r hr ↦ ⟨hr.1, hr.2.1, hr.2.2.1.trans hdb, hr.2.2.2⟩

theorem solve_meets (h : Rep B tr cls base n vm cc) (hc : Checkable tr cls base n)
    (hfail : Refuted B tr cc.clausedb.entries → fail .assertion) {frame : List ℕ}
    (hframe : ∀ c ∈ frame, c ∈ base) {c : ℕ} (hcb : c ∈ base)
    (hown : c ∉ frame → (∀ lit ∈ cls c, Own tr lit) ∧ (cls c = [] → fail .assertion)) :
    Meets (fun r ↦ Rep B tr cls base n vm r.2 ∧ r.2.solverInited = true ∧
      r.2.clausedb = cc.clausedb ∧ Answered tr cls frame (cls c) r.2 r.1) fail (cc.solve B frame c) := by
  obtain ⟨e, he, rfl⟩ := h.ids c hcb
  have hmem : ∀ lit, lit ∈ e.clause ↔ lit ∈ cls e.id := fun lit ↦ h.entered.mem_clause he
  have hask : Askable tr cls fail frame e.clause := by
    refine ⟨fun lit hl ↦ (hc.lits _ hcb lit ((hmem lit).mp hl)).1, ?_⟩
    by_cases hin : e.id ∈ frame
    · refine .inl ⟨e.id, hin, ?_⟩
      rw [h.entered.clause e he]
      exact (List.pairwise_insertionSort (· ≤ ·) _).insertionSort_eq.symm
    · obtain ⟨hlits, hnil⟩ := hown hin
      refine .inr ⟨fun lit hl ↦ hlits lit ((hmem lit).mp hl), fun heq ↦ hnil ?_⟩
      exact List.eq_nil_iff_forall_not_mem.mpr fun lit hl ↦
        absurd ((hmem lit).mpr hl) (heq ▸ List.not_mem_nil)
  unfold solve
  rw [(h.entry_meets he).1, ok_bind]
  refine (supportSolve_meets h hc hfail hframe hask).imp fun r hr ↦ ?_
  obtain ⟨hrep, hi, hdb, hans⟩ := hr
  exact ⟨hrep, hi, hdb, hans.iff.trans (carries_congr hmem), hans.lost,
    fun m hm lit hl ↦ hans.self m hm lit ((hmem lit).mpr hl),
    fun s hs ↦ (hans.support s hs).imp_right (And.imp_right (carries_congr hmem).mp)⟩

theorem solve_mem_meets (h : Rep B tr cls base n vm cc) (hc : Checkable tr cls base n)
    (hfail : Refuted B tr cc.clausedb.entries → fail .assertion) {frame : List ℕ}
    (hframe : ∀ c ∈ frame, c ∈ base) {c : ℕ} (hmem : c ∈ frame) :
    Meets (fun r ↦ Rep B tr cls base n vm r.2 ∧ r.2.solverInited = true ∧
      r.2.clausedb = cc.clausedb ∧ Answered tr cls frame (cls c) r.2 r.1) fail (cc.solve B frame c) :=
  solve_meets h hc hfail hframe (hframe c hmem) (absurd hmem)

theorem isInductive_meets (h : Rep B tr cls base n vm cc) (hc : Checkable tr cls base n)
    (hfail : Refuted B tr cc.clausedb.entries → fail .assertion) {frame : List ℕ}
    (hframe : ∀ c ∈ frame, c ∈ base) :
    Meets (fun r ↦ Rep B tr cls base n vm r.2 ∧ r.2.clausedb = cc.clausedb ∧
      (cc.solverInited = true ∨ frame ≠ [] → r.2.solverInited = true) ∧
      (r.1 = true ↔ Inductive (Supports tr cls) frame.toFinset)) fail (cc.isInductive B frame) := by
  have hall : ∀ rest cc, rest ⊆ frame → Rep B tr cls base n vm cc →
      (Refuted B tr cc.clausedb.entries → fail .assertion) →
      Meets (fun r ↦ Rep B tr cls base n vm r.2 ∧ r.2.clausedb = cc.clausedb ∧
        (cc.solverInited = true ∨ rest ≠ [] → r.2.solverInited = true) ∧
        (r.1 = true ↔ ∀ c ∈ rest, Supports tr cls frame.toFinset c)) fail
        (carriesAll B frame rest cc) := by
    intro rest
    induction rest with
    | nil =>
      intro cc _ h _
      exact ⟨h, rfl, fun hor ↦ hor.resolve_right (absurd rfl),
        fun _ c hcm ↦ absurd hcm List.not_mem_nil, fun _ ↦ rfl⟩
    | cons c rest ih =>
      intro cc hsub h hfail
      refine (solve_mem_meets h hc hfail hframe (hsub List.mem_cons_self)).bind fun r hr ↦ ?_
      obtain ⟨answer, cc'⟩ := r
      obtain ⟨h', hi', hdb, hans⟩ := hr
      dsimp only at h' hi' hdb hans ⊢
      cases hb : answer.isHolding with
      | false =>
        rw [if_neg Bool.false_ne_true]
        refine ⟨h', hdb, fun _ ↦ hi', nofun, fun hall ↦ ?_⟩
        exact hb.symm.trans (hans.iff.mpr (hall c List.mem_cons_self))
      | true =>
        rw [if_pos rfl]
        refine (ih cc' (fun a ha ↦ hsub (List.mem_cons_of_mem _ ha)) h' (hdb ▸ hfail)).imp fun r hr ↦ ?_
        obtain ⟨h'', hdb', hi'', hiff⟩ := hr
        refine ⟨h'', hdb'.trans hdb, fun _ ↦ hi'' (.inl hi'), hiff.trans ?_⟩
        rw [List.forall_mem_cons]
        exact ⟨fun hrest ↦ ⟨hans.iff.mp hb, hrest⟩, And.right⟩
  refine (hall frame cc (List.Subset.refl _) h hfail).imp fun r hr ↦ ?_
  obtain ⟨h', hdb, hi', hiff⟩ := hr
  refine ⟨h', hdb, hi', hiff.trans ?_⟩
  exact ⟨fun hs c hcm ↦ hs c (List.mem_toFinset.mp hcm), fun hs c hcm ↦ hs c (List.mem_toFinset.mpr hcm)⟩

end Queries

end ConsecutionChecker

end PME
