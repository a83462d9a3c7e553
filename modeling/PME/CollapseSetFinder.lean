import PME.ClauseDatabase
import PME.PBOMaxSATSolver

namespace PME

open Outcome Support

structure CollapseSetFinder where
  tr : TransitionRelation
  clausedb : ClauseDatabase ℕ
  solver : PBOMaxSATSolver
  solverInited : Bool

namespace CollapseSetFinder

def new (tr : TransitionRelation) : CollapseSetFinder := ⟨tr, .new, .new, false⟩

def addClause (vm : VariableManager) (f : CollapseSetFinder) (id : ℕ) (cls : Clause) :
    Result (VariableManager × CollapseSetFinder) := do
  ensure (!f.solverInited)
  let (act, vm) ← vm.getNewID 0
  let (check, vm) ← vm.getNewID 0
  let clausedb ← f.clausedb.addClause id act cls check
  return (vm, { f with clausedb := clausedb })

def initSolver (B : Backend) (f : CollapseSetFinder) : Result CollapseSetFinder := do
  ensure (!f.solverInited)
  let vec ← activatedFormula B f.tr f.clausedb.entries
  let solver ← f.solver.addClauses vec
  let solver := f.clausedb.entries.foldl (fun solver e ↦ solver.addForOptimization e.activation) solver
  return { f with solver := solver, solverInited := true }

def isInactive (f : CollapseSetFinder) (m : Assignment) (e : ClauseEntry ℕ) : Result Bool := do
  return !(← f.solver.getAssignment m e.activation)

def inactive (f : CollapseSetFinder) (m : Assignment) : Result (List ℕ) :=
  f.clausedb.entries.foldlM (fun collapse e ↦ do
    let inactive ← f.isInactive m e
    return if inactive then collapse ++ [e.id] else collapse) []

def find (B : Backend) (vm : VariableManager) (f : CollapseSetFinder) (id : ℕ) :
    Result (Option (List ℕ) × VariableManager × CollapseSetFinder) := do
  let f ← (if f.solverInited then pure f else f.initSolver B)
  let c ← f.clausedb.clauseOf id
  let act ← f.clausedb.activationOfID id
  let check ← f.clausedb.getData id
  let (m, vm, solver) ← f.solver.assumpSolve B.sat vm (failsNext c ++ [act] ++ [check])
  let f := { f with solver := solver }
  match m with
  | none => return (none, vm, f)
  | some m =>
    let collapse ← f.inactive m
    ensure (!collapse.isEmpty)
    return (some collapse, vm, f)

def findAndBlock (B : Backend) (vm : VariableManager) (f : CollapseSetFinder) (id : ℕ) :
    Result (Option (List ℕ) × VariableManager × CollapseSetFinder) := do
  let (found, vm, f) ← f.find B vm id
  match found with
  | none => return (none, vm, f)
  | some collapse =>
    let block ← collapse.mapM f.clausedb.activationOfID
    let solver ← f.solver.addClause (block ++ [negate (← f.clausedb.getData id)])
    return (some collapse, vm, { f with solver := solver })

def Allows (entries : List (ClauseEntry ℕ)) (blocked : List (ℕ × Finset ℕ)) (σ : Assignment) : Prop :=
  ∀ p ∈ blocked, ∀ e ∈ entries, e.id = p.1 → σ e.data = true →
    ∃ d ∈ entries, d.id ∈ p.2 ∧ σ d.activation = true

structure Filled (cls : ℕ → Clause) (base : Finset ℕ) (n : ℕ) (vm : VariableManager)
    (entries : List (ClauseEntry ℕ)) : Prop extends Entered cls base n vm entries where
  check : ∀ e ∈ entries, e.data % 2 = 0 ∧ n ≤ e.data ∧ e.data < vm.nextID
  checks_nodup : (entries.map ClauseEntry.data).Nodup
  check_ne : ∀ e ∈ entries, ∀ d ∈ entries, e.data ≠ d.activation

structure Solving (tr : TransitionRelation) (cls : ℕ → Clause) (base : Finset ℕ) (n : ℕ)
    (blocked : List (ℕ × Finset ℕ)) (vm : VariableManager) (f : CollapseSetFinder) : Prop where
  bound : ∃ before : VariableManager, before.Inv ∧ before.nextID ≤ vm.nextID ∧ n ≤ before.nextID ∧
    Filled cls base n before f.clausedb.entries ∧
    PBOMaxSATSolver.Rep {v | v < before.nextID ∨ maxId < v} vm.nextID f.solver
  opt : f.solver.optimizationSet = f.clausedb.entries.map ClauseEntry.activation
  formula : ∃ vec, FormulaAnswers tr f.clausedb.entries vec ∧
    ∀ σ, f.solver.IsModel σ ↔
      satClauses σ ([idTrue] :: vec) ∧ Allows f.clausedb.entries blocked σ

structure Rep (B : Backend) (tr : TransitionRelation) (cls : ℕ → Clause) (base : Finset ℕ) (n : ℕ)
    (blocked : List (ℕ × Finset ℕ)) (vm : VariableManager) (f : CollapseSetFinder) : Prop where
  tr_eq : f.tr = tr
  vars : vm.Inv
  le : n ≤ vm.nextID
  filled : Filled cls base n vm f.clausedb.entries
  ids : ∀ c ∈ base, ∃ e ∈ f.clausedb.entries, e.id = c
  blocked_mem : ∀ p ∈ blocked, p.2 ⊆ base
  start : f.solverInited = false → f.solver = .new ∧ blocked = []
  solving : f.solverInited = true →
    f.Solving tr cls base n blocked vm ∧ ¬ Refuted B tr f.clausedb.entries

variable {B : Backend} {tr : TransitionRelation} {cls : ℕ → Clause} {base : Finset ℕ} {n : ℕ}
  {blocked : List (ℕ × Finset ℕ)} {vm vm' : VariableManager} {f : CollapseSetFinder}
  {entries : List (ClauseEntry ℕ)} {fail : Failure → Prop}

theorem Filled.mono (h : Filled cls base n vm entries) (hle : vm.nextID ≤ vm'.nextID) :
    Filled cls base n vm' entries :=
  { h with
    toEntered := h.toEntered.mono hle
    check := fun e he ↦ ⟨(h.check e he).1, (h.check e he).2.1, (h.check e he).2.2.trans_le hle⟩ }

theorem Rep.mono (h : Rep B tr cls base n blocked vm f) (hvm : vm'.Inv)
    (hle : vm.nextID ≤ vm'.nextID) : Rep B tr cls base n blocked vm' f where
  tr_eq := h.tr_eq
  vars := hvm
  le := h.le.trans hle
  filled := h.filled.mono hle
  ids := h.ids
  blocked_mem := h.blocked_mem
  start := h.start
  solving hi := by
    obtain ⟨hs, hno⟩ := h.solving hi
    obtain ⟨before, hinv, hle', hn, hfilled, hrep⟩ := hs.bound
    have hrep' := hrep.grow hle (Set.Subset.refl _) fun _ hv ↦ .inl hv
    exact ⟨⟨⟨before, hinv, hle'.trans hle, hn, hfilled, hrep'⟩, hs.opt, hs.formula⟩, hno⟩

theorem Filled.add (h : Filled cls base n vm entries) (hvm : vm.Inv) (hn : n ≤ vm.nextID) {c : ℕ}
    (hc : c ∈ base) (hnew : c ∉ entries.map ClauseEntry.id)
    (hnext : vm'.nextID = vm.nextID + 4) :
    Filled cls base n vm' (entries ++
      [⟨c, vm.nextID, (cls c).insertionSort (· ≤ ·), vm.nextID + 2⟩]) := by
  have heven := hvm.even
  have hact : ∀ e ∈ entries, e.activation < vm.nextID := fun e he ↦ (h.act e he).2.2
  have hcheck : ∀ e ∈ entries, e.data < vm.nextID := fun e he ↦ (h.check e he).2.2
  refine { h.toEntered.add hc hnew hn heven rfl (by omega) with
    check := fun e he ↦ ?_, checks_nodup := ?_, check_ne := fun e he d hd ↦ ?_ }
  · cases List.mem_append.mp he with
    | inl he =>
      have hlt := hcheck e he
      exact ⟨(h.check e he).1, (h.check e he).2.1, by omega⟩
    | inr he =>
      rw [List.mem_singleton.mp he]
      refine ⟨?_, ?_, ?_⟩ <;> dsimp only <;> omega
  · rw [List.map_append, List.nodup_append]
    refine ⟨h.checks_nodup, List.nodup_singleton _, fun a ha b hb hab ↦ ?_⟩
    rw [List.map_singleton, List.mem_singleton] at hb
    obtain ⟨e, he, rfl⟩ := List.mem_map.mp ha
    have hlt := hcheck e he
    have heq : e.data = vm.nextID + 2 := hab.trans hb
    omega
  · cases List.mem_append.mp he with
    | inl he =>
      cases List.mem_append.mp hd with
      | inl hd => exact h.check_ne e he d hd
      | inr hd =>
        have hlt := hcheck e he
        rw [List.mem_singleton.mp hd]
        dsimp only
        omega
    | inr he =>
      rw [List.mem_singleton.mp he]
      cases List.mem_append.mp hd with
      | inl hd =>
        have hlt := hact d hd
        dsimp only
        omega
      | inr hd =>
        rw [List.mem_singleton.mp hd]
        dsimp only
        omega

structure Building (tr : TransitionRelation) (cls : ℕ → Clause) (base : Finset ℕ) (n : ℕ)
    (vm : VariableManager) (f : CollapseSetFinder) : Prop where
  tr_eq : f.tr = tr
  filled : Filled cls base n vm f.clausedb.entries
  solver : f.solver = .new
  solverInited : f.solverInited = false

theorem building_new : Building tr cls base n vm (new tr) :=
  ⟨rfl, ⟨Entered.nil, nofun, List.nodup_nil, nofun⟩, rfl, rfl⟩

theorem Building.mono (h : Building tr cls base n vm f) (hle : vm.nextID ≤ vm'.nextID) :
    Building tr cls base n vm' f := { h with filled := h.filled.mono hle }

theorem Building.rep (h : Building tr cls base n vm f) (hvm : vm.Inv) (hn : n ≤ vm.nextID)
    (hids : ∀ c ∈ base, c ∈ f.clausedb.entries.map ClauseEntry.id) :
    Rep B tr cls base n [] vm f where
  tr_eq := h.tr_eq
  vars := hvm
  le := hn
  filled := h.filled
  ids c hc := List.mem_map.mp (hids c hc)
  blocked_mem _ hp := absurd hp List.not_mem_nil
  start _ := ⟨h.solver, rfl⟩
  solving hi := absurd (h.solverInited.symm.trans hi) Bool.false_ne_true

theorem Building.addClause (h : Building tr cls base n vm f) (hvm : vm.Inv) (hn : n ≤ vm.nextID)
    {c : ℕ} (hc : c ∈ base) (hnew : c ∉ f.clausedb.entries.map ClauseEntry.id)
    (hids : fail .idsExhausted) :
    Meets (fun r ↦ r.1.Inv ∧ vm.nextID ≤ r.1.nextID ∧ Building tr cls base n r.1 r.2 ∧
      r.2.clausedb.entries.map ClauseEntry.id = f.clausedb.entries.map ClauseEntry.id ++ [c]) fail
      (f.addClause vm c (cls c)) := by
  unfold CollapseSetFinder.addClause
  rw [h.solverInited, Bool.not_false, ensure_true, ok_bind]
  refine (VariableManager.getNewID_meets hvm rfl (absurd rfl) fun _ ↦ hids).bind fun r hr ↦ ?_
  obtain ⟨act, vm₁⟩ := r
  refine (VariableManager.getNewID_meets hr.inv rfl (absurd rfl) fun _ ↦ hids).bind fun r' hr' ↦ ?_
  obtain ⟨check, vm₂⟩ := r'
  have hact : act = vm.nextID := hr.id_eq
  have hnext₁ : vm₁.nextID = vm.nextID + 2 := hr.nextID
  have hcheck : check = vm.nextID + 2 := hr'.id_eq.trans hnext₁
  have hnext : vm₂.nextID = vm.nextID + 4 := hr'.nextID.trans (by rw [hnext₁])
  subst hact hcheck
  have hfresh : vm.nextID ∉ f.clausedb.entries.map ClauseEntry.activation := by
    intro hmem
    obtain ⟨e, he, heq⟩ := List.mem_map.mp hmem
    have hlt := (h.filled.act e he).2.2
    omega
  refine (ClauseDatabase.addClause_meets hnew hfresh).bind fun db hdb ↦ ?_
  refine ⟨hr'.inv, by dsimp only; omega, ⟨h.tr_eq, ?_, h.solver, rfl⟩, ?_⟩
  · dsimp only
    rw [hdb]
    exact h.filled.add hvm hn hc hnew hnext
  · dsimp only
    rw [hdb, List.map_append]
    rfl

theorem optimize_rep {U : Set ℕ} {top : ℕ} (entries : List (ClauseEntry ℕ)) {solver : PBOMaxSATSolver}
    (h : PBOMaxSATSolver.Rep U top solver) (hacts : ∀ e ∈ entries, strip e.activation ∈ U) :
    PBOMaxSATSolver.Rep U top
        (entries.foldl (fun solver e ↦ solver.addForOptimization e.activation) solver) ∧
      (entries.foldl (fun solver e ↦ solver.addForOptimization e.activation) solver).optimizationSet =
        solver.optimizationSet ++ entries.map ClauseEntry.activation ∧
      (entries.foldl (fun solver e ↦ solver.addForOptimization e.activation) solver).clauses =
        solver.clauses := by
  induction entries generalizing solver with
  | nil => exact ⟨h, (List.append_nil _).symm, rfl⟩
  | cons e entries ih =>
    obtain ⟨hrep, hopt, hcl⟩ := ih (h.addForOptimization (hacts e List.mem_cons_self))
      fun d hd ↦ hacts d (List.mem_cons_of_mem e hd)
    refine ⟨hrep, hopt.trans ?_, hcl⟩
    rw [List.map_cons]
    exact List.append_assoc _ _ _

theorem initSolver_meets (h : Rep B tr cls base n blocked vm f) (hc : Checkable tr cls base n)
    (hi : f.solverInited = false) (hfail : Refuted B tr f.clausedb.entries → fail .assertion) :
    Meets (fun f' ↦ Rep B tr cls base n blocked vm f' ∧ f'.solverInited = true ∧
      f'.clausedb = f.clausedb) fail (f.initSolver B) := by
  obtain ⟨hsolver, hblocked⟩ := h.start hi
  have hsuits := hc.suits h.filled.toEntered h.vars
  unfold initSolver
  rw [hi, Bool.not_false, ensure_true, ok_bind, h.tr_eq]
  refine (activatedFormula_meets hsuits B hfail).bind fun vec hvec ↦ ?_
  obtain ⟨hvec, hno⟩ := hvec
  have hbound : ∀ v ∈ varsOf vec, v < vm.nextID ∨ maxId < v := fun v hv ↦
    hc.vars_bound h.filled.toEntered h.le (hvec.vars hv)
  have hconst : idFalse < vm.nextID := by
    have hmin := h.vars.minId_le
    rw [minId_eq] at hmin
    rw [idFalse]
    omega
  have hstart : PBOMaxSATSolver.Rep {v | v < vm.nextID ∨ maxId < v} vm.nextID f.solver := by
    rw [hsolver]
    exact PBOMaxSATSolver.rep_new (.inl hconst)
  refine (PBOMaxSATSolver.addClauses_meets hstart hvec.nonempty hbound).bind fun solver hs ↦ ?_
  obtain ⟨hrep, hcl, hopt, -⟩ := hs
  have hacts : ∀ e ∈ f.clausedb.entries,
      strip e.activation ∈ {v | v < vm.nextID ∨ maxId < v} := by
    intro e he
    obtain ⟨heven, -, hlt⟩ := h.filled.act e he
    rw [strip_of_even heven]
    exact .inl hlt
  obtain ⟨hrep', hopt', hcl'⟩ := optimize_rep f.clausedb.entries hrep hacts
  have hnone : f.solver.optimizationSet = [] ∧ f.solver.clauses = [] := by
    rw [hsolver]
    exact ⟨rfl, rfl⟩
  refine ⟨⟨rfl, h.vars, h.le, h.filled, h.ids, h.blocked_mem, fun hstart ↦ absurd hstart Bool.true_eq_false.mp,
    fun _ ↦ ⟨⟨?_, ?_, ?_⟩, hno⟩⟩, rfl, rfl⟩
  · exact ⟨vm, h.vars, le_rfl, h.le, h.filled, hrep'⟩
  · dsimp only
    rw [hopt', hopt, hnone.1, List.nil_append]
  · refine ⟨vec, hvec, fun σ ↦ ?_⟩
    unfold PBOMaxSATSolver.IsModel
    dsimp only
    rw [hcl', hcl, hnone.2, List.nil_append, hblocked]
    exact ⟨fun hσ ↦ ⟨hσ, fun _ hp ↦ absurd hp List.not_mem_nil⟩, And.left⟩

section Queries

def collapseAssumps (e : ClauseEntry ℕ) : Cube := failsNext e.clause ++ [e.activation] ++ [e.data]

theorem satCube_collapseAssumps {e : ClauseEntry ℕ} {σ : Assignment} (hact : e.activation % 2 = 0)
    (hcheck : e.data % 2 = 0) : satCube σ (collapseAssumps e) ↔
      satCube σ (failsNext e.clause) ∧ σ e.activation = true ∧ σ e.data = true := by
  rw [collapseAssumps, satCube_append, satCube_append, satCube_cons, satCube_cons,
    litVal_of_even hact, litVal_of_even hcheck]
  exact ⟨fun h ↦ ⟨h.1.1, h.1.2.1, h.2.1⟩,
    fun h ↦ ⟨⟨h.1, h.2.1, satCube_nil⟩, h.2.2, satCube_nil⟩⟩

theorem failsNext_bound (hc : Checkable tr cls base n) (h : Entered cls base n vm entries)
    {e : ClauseEntry ℕ} (he : e ∈ entries) {lit : ℕ} (hl : lit ∈ failsNext e.clause) :
    strip lit < n ∨ maxId < strip lit := by
  obtain ⟨neg, hneg, rfl⟩ := List.mem_map.mp hl
  obtain ⟨l, hmem, rfl⟩ := List.mem_map.mp hneg
  obtain ⟨⟨hval, -⟩, hlt⟩ := hc.lits _ (h.mem e he) l ((h.mem_clause he).mp hmem)
  have hmin := hc.ge
  rw [minId_eq] at hmin
  rw [strip_prime (negate_le hval.2), strip_negate]
  obtain hconst | hge := hval.strip_cases
  · rw [hconst, prime_idFalse, idFalse]
    exact .inl (by omega)
  · rw [prime_of_ge hge hval.strip.2, maxId_eq]
    exact .inr (by omega)

theorem allows_congr (hfresh : ∀ e ∈ entries, Fresh tr entries e.activation ∧ Fresh tr entries e.data)
    {σ τ : Assignment} (hsame : ∀ v, Fresh tr entries v → τ v = σ v)
    (h : Allows entries blocked σ) : Allows entries blocked τ := by
  intro p hp e he heq hv
  rw [hsame _ (hfresh e he).2] at hv
  obtain ⟨d, hd, hmem, hact⟩ := h p hp e he heq hv
  exact ⟨d, hd, hmem, (hsame _ (hfresh d hd).1).trans hact⟩

/-- The active clauses may be those of `s` exactly when these do not support the clause, and hit
each set blocked for it. -/
theorem Solving.exists_iff (hs : f.Solving tr cls base n blocked vm)
    (h : Rep B tr cls base n blocked vm f) (hc : Checkable tr cls base n) {e : ClauseEntry ℕ}
    (he : e ∈ f.clausedb.entries) {s : Finset ℕ} (hsub : s ⊆ base) (hmem : e.id ∈ s) :
    (∃ σ, f.solver.IsModel σ ∧ satCube σ (collapseAssumps e) ∧
      ∀ d ∈ f.clausedb.entries, (σ d.activation = true ↔ d.id ∈ s)) ↔
      ¬ Supports tr cls s e.id ∧ ∀ k, (e.id, k) ∈ blocked → (s ∩ k).Nonempty := by
  classical
  obtain ⟨vec, hvec, hmodel⟩ := hs.formula
  have hsuits := hc.suits h.filled.toEntered h.vars
  have hfresh : ∀ d ∈ f.clausedb.entries, Fresh tr f.clausedb.entries d.activation ∧
      Fresh tr f.clausedb.entries d.data := fun d hd ↦
    ⟨hsuits.fresh hd, hc.fresh h.filled.toEntered h.vars (h.filled.check d hd).1
      (h.filled.check d hd).2.1 (h.filled.check d hd).2.2⟩
  have hask : ∀ lit ∈ e.clause, MayAsk tr lit := fun lit hl ↦
    (hc.lits _ (h.filled.mem e he) lit ((h.filled.mem_clause he).mp hl)).1
  let r : Assignment → Prop := fun σ ↦ Allows f.clausedb.entries blocked σ ∧
    (σ e.activation = true ∧ σ e.data = true) ∧
    ∀ d ∈ f.clausedb.entries, (σ d.activation = true ↔ d.id ∈ s)
  have hr : ∀ σ τ : Assignment, (∀ v, Fresh tr f.clausedb.entries v → τ v = σ v) → r σ → r τ := by
    intro σ τ hsame hrσ
    obtain ⟨hallow, ⟨hact, hcheck⟩, hpat⟩ := hrσ
    refine ⟨allows_congr hfresh hsame hallow, ⟨?_, ?_⟩, fun d hd ↦ ?_⟩
    · exact (hsame _ (hfresh e he).1).trans hact
    · exact (hsame _ (hfresh e he).2).trans hcheck
    · rw [hsame _ (hfresh d hd).1]
      exact hpat d hd
  have hquery := hvec.exists_iff hsuits hask r hr
  have hassumps : ∀ σ, satCube σ (collapseAssumps e) ↔ _ := fun σ ↦
    satCube_collapseAssumps (σ := σ) (h.filled.act e he).1 (h.filled.check e he).1
  constructor
  · intro hex
    obtain ⟨σ, hσ, hassump, hpat⟩ := hex
    obtain ⟨hsat, hallow⟩ := (hmodel σ).mp hσ
    obtain ⟨hfails, hact⟩ := (hassumps σ).mp hassump
    obtain ⟨A, x, y, hA, hlink, hclauses, hno⟩ := hquery.mp ⟨σ, hsat, ⟨hallow, hact, hpat⟩, hfails⟩
    obtain ⟨hallowA, ⟨-, hcheckA⟩, hpatA⟩ := hA
    have hholds : ∀ d ∈ f.clausedb.entries, d.id ∈ s → satClause x (cls d.id) := fun d hd hds ↦
      (h.filled.satClause hd).mp (hclauses d hd ((hpatA d hd).mpr hds))
    refine ⟨fun hsup ↦ hno ((h.filled.satClause he).mpr (hsup x y hlink (fun d hd ↦ ?_)
      (hholds e he hmem))), fun k hk ↦ ?_⟩
    · obtain ⟨d', hd', rfl⟩ := h.ids d (hsub hd)
      exact hholds d' hd' hd
    · obtain ⟨d, hd, hdk, hactd⟩ := hallowA _ hk e he rfl hcheckA
      exact ⟨d.id, Finset.mem_inter.mpr ⟨(hpatA d hd).mp hactd, hdk⟩⟩
  · intro hex
    obtain ⟨hnosup, hhits⟩ := hex
    unfold Supports at hnosup
    push Not at hnosup
    obtain ⟨x, y, hlink, hall, -, hno⟩ := hnosup
    -- the activation variables of the set are on, and the checking variable of the clause
    let A : Assignment := fun v ↦ decide
      ((∃ d ∈ f.clausedb.entries, d.activation = v ∧ d.id ∈ s) ∨ v = e.data)
    have hA : ∀ v, A v = true ↔
        (∃ d ∈ f.clausedb.entries, d.activation = v ∧ d.id ∈ s) ∨ v = e.data := fun v ↦
      decide_eq_true_iff
    have hpat : ∀ d ∈ f.clausedb.entries, (A d.activation = true ↔ d.id ∈ s) := by
      intro d hd
      refine (hA _).trans ⟨fun hor ↦ ?_, fun hds ↦ .inl ⟨d, hd, rfl, hds⟩⟩
      obtain ⟨d', hd', heq, hds⟩ | heq := hor
      · have hsame : d' = d := List.inj_on_of_nodup_map h.filled.acts_nodup hd' hd heq
        exact hsame ▸ hds
      · exact absurd heq.symm (h.filled.check_ne e he d hd)
    have hallow : Allows f.clausedb.entries blocked A := by
      intro p hp e' he' heq hv
      have hdata : e'.data = e.data := by
        obtain ⟨d, hd, hact, -⟩ | hdata := (hA _).mp hv
        · exact absurd hact.symm (h.filled.check_ne e' he' d hd)
        · exact hdata
      have hsame : e' = e := List.inj_on_of_nodup_map h.filled.checks_nodup he' he hdata
      obtain ⟨i, hi⟩ := hhits p.2 (by rw [← hsame, heq]; exact hp)
      obtain ⟨his, hik⟩ := Finset.mem_inter.mp hi
      obtain ⟨d, hd, rfl⟩ := h.ids i (hsub his)
      exact ⟨d, hd, hik, (hpat d hd).mpr his⟩
    obtain ⟨σ, hσ, hrσ, hfails⟩ := hquery.mpr ⟨A, x, y,
      ⟨hallow, ⟨(hpat e he).mpr hmem, (hA _).mpr (.inr rfl)⟩, hpat⟩, hlink,
      fun d hd hact ↦ (h.filled.satClause hd).mpr (hall _ ((hpat d hd).mp hact)),
      fun hsat ↦ hno ((h.filled.satClause he).mp hsat)⟩
    exact ⟨σ, (hmodel σ).mpr ⟨hσ, hrσ.1⟩, (hassumps σ).mpr ⟨hfails, hrσ.2.1⟩, hrσ.2.2⟩

theorem Filled.count_active (h : Filled cls base n vm entries) (hids : ∀ c ∈ base, ∃ e ∈ entries, e.id = c)
    {s : Finset ℕ} (hsub : s ⊆ base) {σ : Assignment}
    (hpat : ∀ d ∈ entries, (σ d.activation = true ↔ d.id ∈ s)) :
    trueCount σ (entries.map ClauseEntry.activation) = s.card := by
  have hcount : trueCount σ (entries.map ClauseEntry.activation) =
      (entries.map ClauseEntry.id).countP fun i ↦ decide (i ∈ s) := by
    rw [trueCount, List.countP_map, List.countP_map]
    refine List.countP_congr fun d hd ↦ ?_
    rw [Function.comp_apply, Function.comp_apply, litVal_of_even (h.act d hd).1, decide_eq_true_iff]
    exact hpat d hd
  have hset : ((entries.map ClauseEntry.id).filter fun i ↦ decide (i ∈ s)).toFinset = s := by
    ext i
    rw [List.mem_toFinset, List.mem_filter, decide_eq_true_iff]
    refine ⟨And.right, fun hi ↦ ⟨?_, hi⟩⟩
    obtain ⟨e, he, rfl⟩ := hids i (hsub hi)
    exact List.mem_map_of_mem he
  rw [hcount, List.countP_eq_length_filter,
    ← List.toFinset_card_of_nodup (h.ids_nodup.filter _)]
  exact congrArg Finset.card hset

def Unblocked (blocked : List (ℕ × Finset ℕ)) (c : ℕ) (k : Finset ℕ) : Prop :=
  ∀ k', (c, k') ∈ blocked → ¬ k' ⊆ k

def IsFound (supports : Finset ℕ → ℕ → Prop) (base : Finset ℕ) (blocked : List (ℕ × Finset ℕ))
    (c : ℕ) : Option (List ℕ) → Prop
  | none => ∀ k, Collapses supports base c k → ¬ Unblocked blocked c k
  | some l => l.Nodup ∧ Collapses supports base c l.toFinset ∧ Unblocked blocked c l.toFinset ∧
    ∀ k, Collapses supports base c k → Unblocked blocked c k → l.toFinset.card ≤ k.card

theorem unblocked_iff (h : ∀ p ∈ blocked, p.2 ⊆ base) {c : ℕ} {k : Finset ℕ} :
    Unblocked blocked c k ↔ ∀ k', (c, k') ∈ blocked → ((base \ k) ∩ k').Nonempty := by
  refine forall₂_congr fun k' hk' ↦ ?_
  rw [Finset.not_subset]
  constructor
  · intro hex
    obtain ⟨i, hi, hik⟩ := hex
    exact ⟨i, Finset.mem_inter.mpr ⟨Finset.mem_sdiff.mpr ⟨h _ hk' hi, hik⟩, hi⟩⟩
  · intro hex
    obtain ⟨i, hi⟩ := hex
    obtain ⟨hdiff, hik'⟩ := Finset.mem_inter.mp hi
    exact ⟨i, hik', (Finset.mem_sdiff.mp hdiff).2⟩

theorem inactive_meets (heven : ∀ e ∈ f.clausedb.entries, e.activation % 2 = 0)
    (hsat : f.solver.sat = true) (hknown : ∀ e ∈ f.clausedb.entries, e.activation ∈ f.solver.solver.known)
    {m : Assignment} :
    Meets (· = (f.clausedb.entries.filter fun e ↦ !m e.activation).map ClauseEntry.id) fail
      (f.inactive m) := by
  refine foldlM_meets (fun done collapse ↦
    collapse = (done.filter fun e ↦ !m e.activation).map ClauseEntry.id) [] rfl ?_
  intro done e rest collapse hl hcollapse
  have he : e ∈ f.clausedb.entries := hl ▸ List.mem_append_right _ List.mem_cons_self
  have hvalue : f.isInactive m e = .ok (!m e.activation) := by
    unfold isInactive PBOMaxSATSolver.getAssignment SATAdaptor.getAssignment
      SATAdaptor.safeGetAssignment SATAdaptor.hasSAT
    rw [strip_of_even (heven e he), List.contains_iff_mem.mpr (hknown e he), hsat, if_pos rfl,
      litVal_of_even (heven e he)]
    rfl
  rw [hvalue, ok_bind, meets_pure, List.filter_append, List.map_append, hcollapse, List.filter_cons,
    List.filter_nil]
  cases m e.activation with
  | false => rfl
  | true => exact (List.append_nil _).symm

theorem Filled.inactive (h : Filled cls base n vm entries) (m : Assignment) {l : List ℕ}
    (hl : l = (entries.filter fun e ↦ !m e.activation).map ClauseEntry.id) :
    l.Nodup ∧ l.toFinset ⊆ base ∧
      ∀ d ∈ entries, (m d.activation = true ↔ d.id ∈ base \ l.toFinset) := by
  have hmem : ∀ d ∈ entries, (d.id ∈ l ↔ m d.activation = false) := by
    intro d hd
    rw [hl, List.mem_map]
    constructor
    · intro hex
      obtain ⟨d', hd', heq⟩ := hex
      obtain ⟨hmem, hoff⟩ := List.mem_filter.mp hd'
      rw [← h.unique hmem hd heq]
      exact (Bool.not_eq_true' _).mp hoff
    · intro hoff
      exact ⟨d, List.mem_filter.mpr ⟨hd, (Bool.not_eq_true' _).mpr hoff⟩, rfl⟩
  refine ⟨?_, fun i hi ↦ ?_, fun d hd ↦ ?_⟩
  · rw [hl]
    exact h.ids_nodup.sublist (List.filter_sublist.map _)
  · rw [List.mem_toFinset, hl] at hi
    obtain ⟨d, hd, rfl⟩ := List.mem_map.mp hi
    exact h.mem d (List.mem_filter.mp hd).1
  · rw [Finset.mem_sdiff, List.mem_toFinset, hmem d hd, Bool.not_eq_false]
    exact ⟨fun hon ↦ ⟨h.mem d hd, hon⟩, And.right⟩

theorem Filled.entry_meets {f : CollapseSetFinder} (h : Filled cls base n vm f.clausedb.entries)
    {e : ClauseEntry ℕ} (he : e ∈ f.clausedb.entries) :
    f.clausedb.clauseOf e.id = .ok e.clause ∧ f.clausedb.activationOfID e.id = .ok e.activation ∧
      f.clausedb.getData e.id = .ok e.data := by
  have hmeets : Meets (· = e) (fun _ ↦ False) (f.clausedb.entryOf e.id) :=
    ClauseDatabase.entryOf_meets h.ids_nodup he
  obtain ⟨e', hok, rfl⟩ := hmeets.exists_ok
  unfold ClauseDatabase.clauseOf ClauseDatabase.activationOfID ClauseDatabase.getData
  rw [hok]
  exact ⟨rfl, rfl, rfl⟩

/-- After a search every activation variable has a value. A network with one input has no
clauses, but then the clause is the one searched for, and its variable is assumed. -/
theorem Filled.acts_known (h : Filled cls base n vm entries) {U : Set ℕ} {top : ℕ}
    {solver : PBOMaxSATSolver} (hcount : solver.Counting U top) (hopt : solver.optimizationSet = entries.map ClauseEntry.activation)
    {e : ClauseEntry ℕ} (he : e ∈ entries)
    (hknown : ∀ lit ∈ collapseAssumps e, strip lit ∈ solver.solver.known) :
    ∀ d ∈ entries, d.activation ∈ solver.solver.known := by
  intro d hd
  by_cases htwo : 2 ≤ entries.length
  · refine hcount.known ?_ ?_ (fun lit hl ↦ ?_) _ ?_
    · rw [hopt, List.length_map]
      exact htwo
    · rw [hopt]
      exact h.acts_nodup
    · rw [hopt] at hl
      obtain ⟨d', hd', rfl⟩ := List.mem_map.mp hl
      exact (h.act d' hd').1
    · rw [hopt]
      exact List.mem_map_of_mem hd
  · obtain ⟨a, hone⟩ : ∃ a, entries = [a] := by
      have hpos := List.length_pos_of_mem hd
      exact List.length_eq_one_iff.mp (by omega)
    have heq : d = e := by
      rw [hone] at hd he
      rw [List.mem_singleton.mp hd, List.mem_singleton.mp he]
    have hmem := hknown d.activation
      (List.mem_append_left _ (List.mem_append_right _ (heq ▸ List.mem_singleton_self _)))
    rw [strip_of_even (h.act d hd).1] at hmem
    exact hmem

structure Excused (B : Backend) (tr : TransitionRelation) (vm : VariableManager) (f : CollapseSetFinder)
    (fail : Failure → Prop) : Prop where
  refuted : Refuted B tr f.clausedb.entries → fail .assertion
  ids : 2 ^ 32 < vm.nextID + 2 * f.clausedb.entries.length ^ 3 → fail .narrowed ∧ fail .idsExhausted

theorem find_meets (h : Rep B tr cls base n blocked vm f) (hc : Checkable tr cls base n)
    (hbase : Inductive (Supports tr cls) base) {c : ℕ} (hcb : c ∈ base)
    (hfail : Excused B tr vm f fail) :
    Meets (fun r ↦ Rep B tr cls base n blocked r.2.1 r.2.2 ∧ r.2.2.solverInited = true ∧
      r.2.2.clausedb = f.clausedb ∧ (vm.nextID ≤ r.2.1.nextID ∧
        r.2.1.nextID ≤ vm.nextID + 2 * f.clausedb.entries.length ^ 3) ∧
      IsFound (Supports tr cls) base blocked c r.1) fail (f.find B vm c) := by
  have hinit : Meets (fun f' ↦ Rep B tr cls base n blocked vm f' ∧ f'.solverInited = true ∧
      f'.clausedb = f.clausedb) fail (if f.solverInited then pure f else f.initSolver B) := by
    cases hi : f.solverInited with
    | true => exact ⟨h, hi, rfl⟩
    | false => exact initSolver_meets h hc hi hfail.refuted
  refine hinit.bind fun f₁ hf₁ ↦ ?_
  obtain ⟨h₁, hi₁, hdb⟩ := hf₁
  obtain ⟨hs, hno⟩ := h₁.solving hi₁
  obtain ⟨e, he, rfl⟩ := h₁.ids c hcb
  obtain ⟨hclause, hact, hcheck⟩ := h₁.filled.entry_meets he
  rw [hclause, ok_bind, hact, ok_bind, hcheck, ok_bind]
  obtain ⟨before, hinv, hle, hn, hfilled, hrep⟩ := hs.bound
  have hmax := hinv.le_maxId
  have hU : ∀ v ∈ {v | v < before.nextID ∨ maxId < v}, v < vm.nextID ∨ maxId < v := fun v hv ↦
    hv.imp_left fun hlt ↦ hlt.trans_le hle
  have hsoft : ∀ lit ∈ f₁.solver.optimizationSet, strip lit ≤ maxId := by
    intro lit hl
    rw [hs.opt] at hl
    obtain ⟨d, hd, rfl⟩ := List.mem_map.mp hl
    obtain ⟨heven, -, hlt⟩ := hfilled.act d hd
    rw [strip_of_even heven]
    omega
  have hassumps : ∀ lit ∈ collapseAssumps e, strip lit ∈ {v | v < before.nextID ∨ maxId < v} := by
    intro lit hl
    obtain hl | hl := List.mem_append.mp hl
    · obtain hl | hl := List.mem_append.mp hl
      · exact (failsNext_bound hc hfilled.toEntered he hl).imp_left fun hlt ↦ hlt.trans_le hn
      · rw [List.mem_singleton.mp hl, strip_of_even (hfilled.act e he).1]
        exact .inl (hfilled.act e he).2.2
    · rw [List.mem_singleton.mp hl, strip_of_even (hfilled.check e he).1]
      exact .inl (hfilled.check e he).2.2
  have hsolve : Meets _ fail (f₁.solver.assumpSolve B.sat vm (collapseAssumps e)) :=
    PBOMaxSATSolver.assumpSolve_meets hrep h₁.vars hU hsoft hassumps fun hlt ↦ hfail.ids (by
      rwa [hs.opt, List.length_map, hdb] at hlt)
  refine Meets.bind (x := f₁.solver.assumpSolve B.sat vm (collapseAssumps e)) hsolve fun r hr ↦ ?_
  obtain ⟨m, vm', solver⟩ := r
  obtain ⟨hrep', hbest, hinited, hsat, hcl, hopt, hknown, hvm', hle', htop⟩ := hr
  dsimp only at hrep' hbest hinited hsat hcl hopt hknown hvm' hle' htop ⊢
  rw [hs.opt, List.length_map, hdb] at htop
  have hmodel : ∀ σ, solver.IsModel σ ↔ f₁.solver.IsModel σ := fun σ ↦ by
    unfold PBOMaxSATSolver.IsModel
    rw [hcl]
  have h₂ : Rep B tr cls base n blocked vm' { f₁ with solver := solver } := by
    refine ⟨h₁.tr_eq, hvm', h₁.le.trans hle', h₁.filled.mono hle', h₁.ids, h₁.blocked_mem,
      fun hi ↦ absurd (hi₁.symm.trans hi) Bool.true_eq_false.mp, fun _ ↦ ⟨⟨?_, ?_, ?_⟩, hno⟩⟩
    · exact ⟨before, hinv, hle.trans hle', hn, hfilled, hrep'⟩
    · exact hopt.trans hs.opt
    · obtain ⟨vec, hvec, hiff⟩ := hs.formula
      exact ⟨vec, hvec, fun σ ↦ (hmodel σ).trans (hiff σ)⟩
  have hpattern : ∀ k ⊆ base, e.id ∉ k → Unblocked blocked e.id k →
      ¬ Supports tr cls (base \ k) e.id → ∃ σ, f₁.solver.IsModel σ ∧ satCube σ (collapseAssumps e) ∧
        trueCount σ f₁.solver.optimizationSet + k.card = base.card := by
    intro k hk hek hopen hnosup
    obtain ⟨σ, hσ, hassump, hpat⟩ := (hs.exists_iff h₁ hc he Finset.sdiff_subset
      (Finset.mem_sdiff.mpr ⟨hcb, hek⟩)).mpr ⟨hnosup, (unblocked_iff h₁.blocked_mem).mp hopen⟩
    refine ⟨σ, hσ, hassump, ?_⟩
    rw [hs.opt, h₁.filled.count_active h₁.ids Finset.sdiff_subset hpat]
    exact Finset.card_sdiff_add_card_eq_card hk
  cases m with
  | none =>
    refine ⟨h₂, hi₁, hdb, ⟨hle', htop⟩, fun k hk hopen ↦ ?_⟩
    obtain ⟨σ, hσ, hassump, -⟩ := hpattern k hk.1 hk.2.1 hopen hk.2.2
    exact hbest σ hσ hassump
  | some m =>
    obtain ⟨hm, hassump, hmost⟩ := hbest
    have hacts : ∀ d ∈ f₁.clausedb.entries, d.activation ∈ solver.solver.known :=
      h₁.filled.acts_known (hrep'.counting hinited) (hopt.trans hs.opt) he hknown
    refine (inactive_meets (f := { f₁ with solver := solver }) (fun d hd ↦ (h₁.filled.act d hd).1)
      hsat hacts).bind fun l hl ↦ ?_
    obtain ⟨hnodup, hsub, hpat⟩ := h₁.filled.inactive m hl
    have heon : m e.activation = true :=
      ((satCube_collapseAssumps (h₁.filled.act e he).1 (h₁.filled.check e he).1).mp hassump).2.1
    have hmemk : e.id ∈ base \ l.toFinset := (hpat e he).mp heon
    obtain ⟨hnosup, hhits⟩ := (hs.exists_iff h₁ hc he Finset.sdiff_subset hmemk).mp
      ⟨m, hm, hassump, hpat⟩
    have hcollapse : Collapses (Supports tr cls) base e.id l.toFinset :=
      ⟨hsub, (Finset.mem_sdiff.mp hmemk).2, hnosup⟩
    have hne : l ≠ [] := by
      intro hnil
      have hnonempty := hcollapse.nonempty hbase hcb
      rw [hnil] at hnonempty
      exact absurd hnonempty (by decide)
    have hcount := h₁.filled.count_active h₁.ids Finset.sdiff_subset hpat
    rw [ensure_nonempty hne, ok_bind]
    refine ⟨h₂, hi₁, hdb, ⟨hle', htop⟩, hnodup, hcollapse, (unblocked_iff h₁.blocked_mem).mpr hhits,
      fun k hk hopen ↦ ?_⟩
    obtain ⟨σ, hσ, hassump', hsum⟩ := hpattern k hk.1 hk.2.1 hopen hk.2.2
    have hle'' := hmost σ hσ hassump'
    rw [hs.opt] at hle'' hsum
    rw [hcount] at hle''
    have hsum' := Finset.card_sdiff_add_card_eq_card hsub
    omega

theorem mem_block {l acts : List ℕ} (hacts : List.Forall₂ (fun i act ↦
    ∃ d ∈ entries, d.id = i ∧ d.activation = act) l acts) {lit : ℕ} (hl : lit ∈ acts) :
    ∃ d ∈ entries, d.activation = lit := by
  induction hacts with
  | nil => exact absurd hl List.not_mem_nil
  | cons hd _ ih =>
    cases List.mem_cons.mp hl with
    | inl heq =>
      obtain ⟨d, hd, -, hact⟩ := hd
      exact ⟨d, hd, hact.trans heq.symm⟩
    | inr hl => exact ih hl

theorem satClause_block (h : Filled cls base n vm entries) {e : ClauseEntry ℕ} (he : e ∈ entries)
    {l acts : List ℕ} (hacts : List.Forall₂ (fun i act ↦ ∃ d ∈ entries, d.id = i ∧ d.activation = act)
      l acts) {σ : Assignment} : satClause σ (acts ++ [negate e.data]) ↔
      (σ e.data = true → ∃ d ∈ entries, d.id ∈ l.toFinset ∧ σ d.activation = true) := by
  have hor : satClause σ acts ↔ ∃ d ∈ entries, d.id ∈ l.toFinset ∧ σ d.activation = true := by
    induction hacts with
    | nil => exact ⟨fun hc ↦ absurd hc not_satClause_nil, fun hex ↦ by simp at hex⟩
    | @cons i act l acts hd _ ih =>
      obtain ⟨d, hd, rfl, rfl⟩ := hd
      rw [satClause_cons, ih, litVal_of_even (h.act d hd).1, List.toFinset_cons]
      constructor
      · intro hor
        cases hor with
        | inl hon => exact ⟨d, hd, Finset.mem_insert_self _ _, hon⟩
        | inr hex =>
          obtain ⟨d', hd', hmem, hon⟩ := hex
          exact ⟨d', hd', Finset.mem_insert_of_mem hmem, hon⟩
      · intro hex
        obtain ⟨d', hd', hmem, hon⟩ := hex
        cases Finset.mem_insert.mp hmem with
        | inl heq => exact .inl (h.unique hd' hd heq ▸ hon)
        | inr hmem => exact .inr ⟨d', hd', hmem, hon⟩
  rw [satClause_append, hor, satClause_cons, litVal_negate, litVal_of_even (h.check e he).1]
  cases σ e.data with
  | false => simp
  | true => simp

theorem findAndBlock_meets (h : Rep B tr cls base n blocked vm f) (hc : Checkable tr cls base n)
    (hbase : Inductive (Supports tr cls) base) {c : ℕ} (hcb : c ∈ base)
    (hfail : Excused B tr vm f fail) :
    Meets (fun r ↦ r.2.2.solverInited = true ∧ r.2.2.clausedb = f.clausedb ∧
      (vm.nextID ≤ r.2.1.nextID ∧ r.2.1.nextID ≤ vm.nextID + 2 * f.clausedb.entries.length ^ 3) ∧
      IsFound (Supports tr cls) base blocked c r.1 ∧ match r.1 with
        | none => Rep B tr cls base n blocked r.2.1 r.2.2
        | some l => Rep B tr cls base n (blocked ++ [(c, l.toFinset)]) r.2.1 r.2.2) fail
      (f.findAndBlock B vm c) := by
  refine (find_meets h hc hbase hcb hfail).bind fun r hr ↦ ?_
  obtain ⟨found, vm', f'⟩ := r
  obtain ⟨h', hi', hdb, hle, hfound⟩ := hr
  dsimp only at h' hi' hdb hle hfound ⊢
  cases found with
  | none => exact ⟨hi', hdb, hle, hfound, h'⟩
  | some l =>
    have hsub : l.toFinset ⊆ base := hfound.2.1.1
    obtain ⟨e, he, rfl⟩ := h'.ids c hcb
    obtain ⟨hs, hno⟩ := h'.solving hi'
    obtain ⟨before, hinv, hle', hn, hfilled, hrep⟩ := hs.bound
    have hmap : Meets (List.Forall₂ (fun i act ↦
        ∃ d ∈ f'.clausedb.entries, d.id = i ∧ d.activation = act) l) fail
        (l.mapM f'.clausedb.activationOfID) := by
      refine mapM_meets fun i hi ↦ ?_
      obtain ⟨d, hd, rfl⟩ := h'.ids i (hsub (List.mem_toFinset.mpr hi))
      rw [(h'.filled.entry_meets hd).2.1]
      exact ⟨d, hd, rfl, rfl⟩
    refine hmap.bind fun block hblock ↦ ?_
    rw [(h'.filled.entry_meets he).2.2, ok_bind]
    have hlits : ∀ lit ∈ block ++ [negate e.data],
        strip lit ∈ {v | v < before.nextID ∨ maxId < v} := by
      intro lit hl
      obtain hl | hl := List.mem_append.mp hl
      · obtain ⟨d, hd, rfl⟩ := mem_block hblock hl
        rw [strip_of_even (hfilled.act d hd).1]
        exact .inl (hfilled.act d hd).2.2
      · rw [List.mem_singleton.mp hl, strip_negate, strip_of_even (hfilled.check e he).1]
        exact .inl (hfilled.check e he).2.2
    have hne : block ++ [negate e.data] ≠ [] :=
      List.append_ne_nil_of_right_ne_nil _ (List.cons_ne_nil _ _)
    refine (PBOMaxSATSolver.addClause_meets hrep hne hlits).bind fun solver hsolver ↦ ?_
    obtain ⟨hrep', hcl, hopt, -⟩ := hsolver
    refine ⟨hi', hdb, hle, hfound, h'.tr_eq, h'.vars, h'.le, h'.filled, h'.ids, fun p hp ↦ ?_,
      fun hi ↦ absurd (hi'.symm.trans hi) Bool.true_eq_false.mp, fun _ ↦ ⟨⟨?_, ?_, ?_⟩, hno⟩⟩
    · cases List.mem_append.mp hp with
      | inl hp => exact h'.blocked_mem p hp
      | inr hp =>
        rw [List.mem_singleton.mp hp]
        exact hsub
    · exact ⟨before, hinv, hle', hn, hfilled, hrep'⟩
    · exact hopt.trans hs.opt
    · obtain ⟨vec, hvec, hiff⟩ := hs.formula
      refine ⟨vec, hvec, fun σ ↦ ?_⟩
      rw [PBOMaxSATSolver.isModel_snoc hcl, hiff, satClause_block h'.filled he hblock, and_assoc]
      refine and_congr_right fun _ ↦ ⟨fun hand p hp e' he' heq hv ↦ ?_, fun hall ↦ ⟨?_, ?_⟩⟩
      · cases List.mem_append.mp hp with
        | inl hp => exact hand.1 p hp e' he' heq hv
        | inr hp =>
          rw [List.mem_singleton.mp hp] at heq ⊢
          exact hand.2 (h'.filled.unique he' he heq ▸ hv)
      · exact fun p hp ↦ hall p (List.mem_append_left _ hp)
      · exact hall _ (List.mem_append_right _ (List.mem_singleton_self _)) e he rfl

end Queries

end CollapseSetFinder

end PME
