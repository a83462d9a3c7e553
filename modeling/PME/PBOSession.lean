import PME.PBOMaxSATSolver

namespace PME

open Outcome

namespace PBOMaxSATSolver

def doCheck (S : SAT.Solver) (vm : VariableManager) (s : PBOMaxSATSolver) (assumps : Cube) :
    Result (Bool × VariableManager × PBOMaxSATSolver) := do
  let (vm, s) ← (if s.solverInited then pure (vm, s) else s.initSolver vm)
  let (answer, solver) := s.solver.solve S assumps
  return (answer.isSat, vm, { s with solver := solver })

/-- The calls the owner of a solver makes. In between others take IDs from the shared variable
manager. -/
inductive Call
  | newVar
  | addClause (cls : Clause)
  | addForOptimization (lit : ℕ)
  | solve
  | check (assumps : Cube)
  | assumpSolve (assumps : Cube)

def hardClauses (calls : List Call) : ClauseVec :=
  calls.filterMap fun
    | .addClause cls => some cls
    | _ => none

def optimizationLits (calls : List Call) : List ℕ :=
  calls.filterMap fun
    | .addForOptimization lit => some lit
    | _ => none

structure Session where
  vm : VariableManager
  solver : PBOMaxSATSolver
  ids : Set ℕ

namespace Session

def start (vm : VariableManager) : Session := ⟨vm, .new, {id | idFalse ≤ id ∧ id < vm.nextID}⟩

def call (S : SAT.Solver) (x : Session) : Call → Result Session
  | .newVar => do
    let (id, vm) ← x.vm.getNewID 0
    return { x with vm := vm, ids := insert id x.ids }
  | .addClause cls => do return { x with solver := ← x.solver.addClause cls }
  | .addForOptimization lit => return { x with solver := x.solver.addForOptimization lit }
  | .solve => do
    let (_, vm, solver) ← x.solver.assumpSolve S x.vm []
    return { x with vm := vm, solver := solver }
  | .check assumps => do
    let (_, vm, solver) ← x.solver.doCheck S x.vm assumps
    return { x with vm := vm, solver := solver }
  | .assumpSolve assumps => do
    let (_, vm, solver) ← x.solver.assumpSolve S x.vm assumps
    return { x with vm := vm, solver := solver }

def owned (x : Session) : Set ℕ := {v | v ∈ x.ids ∨ maxId < v}

def Admits (x : Session) : Call → Prop
  | .newVar | .solve => True
  | .addClause cls => cls ≠ [] ∧ ∀ lit ∈ cls, strip lit ∈ x.owned
  | .addForOptimization lit => strip lit ∈ x.ids
  | .check assumps | .assumpSolve assumps => ∀ lit ∈ assumps, strip lit ∈ x.owned

/-- The network over the optimization literals takes IDs, which may run out, or be too large to
be put into an `unsigned`. -/
def TooLarge (x : Session) (e : Failure) : Prop :=
  (e = .narrowed ∨ e = .idsExhausted) ∧
    2 ^ 32 < x.vm.nextID + 2 * x.solver.optimizationSet.length ^ 3

def Fails (x : Session) : Call → Failure → Prop
  | .newVar, e => e = .idsExhausted
  | .addClause _, _ | .addForOptimization _, _ => False
  | .solve, e | .check _, e | .assumpSolve _, e => x.TooLarge e

end Session

inductive Reached (S : SAT.Solver) : List Call → Session → Prop
  | start (vm : VariableManager) (hvm : vm.Inv) : Reached S [] (.start vm)
  | call {calls : List Call} {x x' : Session} (c : Call) (hx : Reached S calls x)
      (hc : x.Admits c) (hcall : x.call S c = .ok x') : Reached S (calls ++ [c]) x'

/-- What a solve has to answer: that there is no model with these values, or one that makes as
many optimization literals true as any. -/
def Optimum (hard : ClauseVec) (soft : List ℕ) (assumps : Cube) : Option Assignment → Prop
  | none => ∀ σ, satClauses σ ([idTrue] :: hard) → ¬ satCube σ assumps
  | some m => satClauses m ([idTrue] :: hard) ∧ satCube m assumps ∧
    ∀ σ, satClauses σ ([idTrue] :: hard) → satCube σ assumps → trueCount σ soft ≤ trueCount m soft

structure Holds (calls : List Call) (x : Session) : Prop where
  vars : x.vm.Inv
  rep : Rep x.owned x.vm.nextID x.solver
  lt : ∀ id ∈ x.ids, id < x.vm.nextID
  soft : ∀ lit ∈ x.solver.optimizationSet, strip lit ∈ x.ids
  clauses : x.solver.clauses = hardClauses calls
  optimizationSet : x.solver.optimizationSet = optimizationLits calls

section Sessions

variable {S : SAT.Solver} {calls : List Call} {x : Session} {assumps : Cube}

theorem holds_start {vm : VariableManager} (hvm : vm.Inv) : Holds [] (.start vm) := by
  have hmin := hvm.minId_le
  have hid : minId = idFalse + 2 := rfl
  have hconst : idFalse ∈ (Session.start vm).owned := .inl ⟨le_rfl, by omega⟩
  exact ⟨hvm, rep_new hconst, fun id hid ↦ hid.2, fun _ hl ↦ absurd hl List.not_mem_nil, rfl, rfl⟩

theorem Holds.owned_lt (h : Holds calls x) : ∀ v ∈ x.owned, v < x.vm.nextID ∨ maxId < v :=
  fun v hv ↦ hv.imp_left (h.lt v)

theorem Holds.soft_le (h : Holds calls x) :
    ∀ lit ∈ x.solver.optimizationSet, strip lit ≤ maxId := fun lit hl ↦ by
  have hlt := h.lt _ (h.soft lit hl)
  have hmax := h.vars.le_maxId
  omega

/-- A solve under assumptions keeps what holds, and answers for the clauses and literals of all
calls before it. -/
theorem Holds.assumpSolve (h : Holds calls x) (hassumps : ∀ lit ∈ assumps, strip lit ∈ x.owned) :
    Meets (fun r ↦ Holds calls { x with vm := r.2.1, solver := r.2.2 } ∧
      Optimum (hardClauses calls) (optimizationLits calls) assumps r.1) x.TooLarge
      (x.solver.assumpSolve S x.vm assumps) := by
  refine (assumpSolve_meets h.rep h.vars h.owned_lt h.soft_le hassumps
    fun hlt ↦ ⟨⟨.inl rfl, hlt⟩, .inr rfl, hlt⟩).imp fun r hr ↦ ?_
  obtain ⟨hrep, hbest, -, -, hcl, hopt, -, hvm, hle, -⟩ := hr
  refine ⟨⟨hvm, hrep, fun id hid ↦ (h.lt id hid).trans_le hle, ?_, hcl.trans h.clauses,
    hopt.trans h.optimizationSet⟩, ?_⟩
  · dsimp only
    rw [hopt]
    exact h.soft
  · rw [← h.clauses, ← h.optimizationSet]
    cases hm : r.1 with
    | none =>
      rw [hm] at hbest
      exact hbest
    | some m =>
      rw [hm] at hbest
      exact hbest

theorem Holds.doCheck (h : Holds calls x) (assumps : Cube) :
    Meets (fun r ↦ Holds calls { x with vm := r.2.1, solver := r.2.2 }) x.TooLarge
      (x.solver.doCheck S x.vm assumps) := by
  have hinit : Meets (fun r ↦ Holds calls { x with vm := r.1, solver := r.2 }) x.TooLarge
      (if x.solver.solverInited then pure (x.vm, x.solver) else x.solver.initSolver x.vm) := by
    cases hi : x.solver.solverInited with
    | true =>
      rw [if_pos rfl]
      exact h
    | false =>
      rw [if_neg Bool.false_ne_true]
      have hids : maxId + 1 < x.vm.nextID + 2 * x.solver.optimizationSet.length ^ 3 →
          x.TooLarge .idsExhausted := fun hlt ↦
        ⟨.inr rfl, lt_trans (by decide : 2 ^ 32 < maxId + 1) hlt⟩
      refine (initSolver_meets h.rep hi h.vars h.owned_lt h.soft_le hids).imp fun r hr ↦ ?_
      obtain ⟨hrep, -, hcl, hopt, hvm, hle, -⟩ := hr
      refine ⟨hvm, hrep, fun id hid ↦ (h.lt id hid).trans_le hle, ?_, hcl.trans h.clauses,
        hopt.trans h.optimizationSet⟩
      dsimp only
      rw [hopt]
      exact h.soft
  unfold PBOMaxSATSolver.doCheck
  refine hinit.bind fun r hr ↦ ?_
  exact { hr with rep := hr.rep.query assumps S }

/-- A call, whichever it is, does to the solver what it does to the clauses and literals. -/
theorem call_meets (h : Holds calls x) {c : Call} (hc : x.Admits c) :
    Meets (Holds (calls ++ [c])) (x.Fails c) (x.call S c) := by
  have hhard : hardClauses (calls ++ [c]) = hardClauses calls ++ hardClauses [c] :=
    List.filterMap_append
  have hsoft : optimizationLits (calls ++ [c]) = optimizationLits calls ++ optimizationLits [c] :=
    List.filterMap_append
  have hquery : hardClauses [c] = [] → optimizationLits [c] = [] →
      ∀ {y}, Holds calls y → Holds (calls ++ [c]) y := by
    intro hnil hnil' y hy
    rw [hnil, List.append_nil] at hhard
    rw [hnil', List.append_nil] at hsoft
    exact { hy with clauses := hy.clauses.trans hhard.symm,
                    optimizationSet := hy.optimizationSet.trans hsoft.symm }
  cases c with
  | newVar =>
    have hnew : Meets _ (x.Fails .newVar) (x.vm.getNewID 0) :=
      VariableManager.getNewID_meets h.vars rfl (absurd rfl) fun _ ↦ rfl
    refine hnew.bind fun r hr ↦ hquery rfl rfl ?_
    obtain ⟨id, vm⟩ := r
    have hid : id = x.vm.nextID := hr.id_eq
    have hnext : vm.nextID = x.vm.nextID + 2 := hr.nextID
    refine ⟨hr.inv, h.rep.grow (by dsimp only; omega) ?_ ?_, ?_,
      fun lit hl ↦ Set.mem_insert_of_mem id (h.soft lit hl), h.clauses, h.optimizationSet⟩
    · exact fun v hv ↦ hv.imp_left (Set.mem_insert_of_mem id)
    · intro v hv
      obtain (hv | hv) | hv := hv
      · exact .inr (hv.trans hid).ge
      · exact .inl (.inl hv)
      · exact .inl (.inr hv)
    · intro v hv
      dsimp only
      cases hv with
      | inl hv => omega
      | inr hv =>
        have hlt := h.lt v hv
        omega
  | addClause cls =>
    refine (addClause_meets h.rep hc.1 hc.2).bind fun solver hs ↦ ?_
    obtain ⟨hrep, hcl, hopt, -⟩ := hs
    refine ⟨h.vars, hrep, h.lt, hopt ▸ h.soft, ?_, ?_⟩
    · rw [hhard]
      exact hcl.trans (congrArg (· ++ [cls]) h.clauses)
    · rw [hsoft]
      exact (hopt.trans h.optimizationSet).trans (List.append_nil _).symm
  | addForOptimization lit =>
    have hlit : strip lit ∈ x.owned := .inl hc
    refine ⟨h.vars, h.rep.addForOptimization hlit, h.lt, fun l hl ↦ ?_, ?_, ?_⟩
    · cases List.mem_append.mp hl with
      | inl hl => exact h.soft l hl
      | inr hl =>
        rw [List.mem_singleton.mp hl]
        exact hc
    · rw [hhard]
      exact h.clauses.trans (List.append_nil _).symm
    · rw [hsoft]
      exact congrArg (· ++ [lit]) h.optimizationSet
  | solve =>
    have hnil : ∀ lit ∈ ([] : Cube), strip lit ∈ x.owned := fun _ hl ↦ absurd hl List.not_mem_nil
    exact (h.assumpSolve hnil).bind fun r hr ↦ hquery rfl rfl hr.1
  | check assumps => exact (h.doCheck assumps).bind fun r hr ↦ hquery rfl rfl hr
  | assumpSolve assumps => exact (h.assumpSolve hc).bind fun r hr ↦ hquery rfl rfl hr.1

theorem Reached.holds (h : Reached S calls x) : Holds calls x := by
  induction h with
  | start vm hvm => exact holds_start hvm
  | call c _ hc hcall ih => exact (call_meets ih hc).of_ok hcall

theorem Reached.exists_call (h : Reached S calls x) {c : Call} (hc : x.Admits c) (hfails : ∀ e, ¬ x.Fails c e) :
    ∃ x', Reached S (calls ++ [c]) x' ∧ (c ≠ .newVar → x'.ids = x.ids) := by
  obtain ⟨x', hx', -⟩ := ((call_meets (S := S) h.holds hc).weaken hfails).exists_ok
  refine ⟨x', h.call c hc hx', fun hne ↦ ?_⟩
  cases c with
  | newVar => exact absurd rfl hne
  | addForOptimization lit =>
    cases hx'
    rfl
  | _ =>
    obtain ⟨r, -, hr⟩ := bind_eq_ok.mp hx'
    cases hr
    rfl

theorem Optimum.alike {hard hard' : ClauseVec} {soft soft' : List ℕ} {assumps assumps' : Cube}
    {r r' : Option Assignment} (h : Optimum hard soft assumps r) (h' : Optimum hard' soft' assumps' r')
    (hhard : ∀ σ, satClauses σ hard' ↔ satClauses σ hard) (hsoft : soft'.Perm soft)
    (hassumps : assumps'.Perm assumps) : r'.isSome = r.isSome ∧
      ∀ m m', r = some m → r' = some m' → trueCount m' soft' = trueCount m soft := by
  have hmodel : ∀ σ, satClauses σ ([idTrue] :: hard') ↔ satClauses σ ([idTrue] :: hard) := fun σ ↦ by
    rw [satClauses_cons, satClauses_cons, hhard]
  have hcube : ∀ σ, satCube σ assumps' ↔ satCube σ assumps := fun σ ↦
    forall_congr' fun lit ↦ by rw [hassumps.mem_iff]
  have hcount : ∀ σ, trueCount σ soft' = trueCount σ soft := fun σ ↦ hsoft.countP_eq _
  cases r with
  | none =>
    cases r' with
    | none => exact ⟨rfl, nofun⟩
    | some m' => exact absurd ((hcube m').mp h'.2.1) (h m' ((hmodel m').mp h'.1))
  | some m =>
    cases r' with
    | none => exact absurd ((hcube m).mpr h.2.1) (h' m ((hmodel m).mpr h.1))
    | some m' =>
      refine ⟨rfl, fun n n' hn hn' ↦ ?_⟩
      cases hn
      cases hn'
      have hle := h.2.2 m' ((hmodel m').mp h'.1) ((hcube m').mp h'.2.1)
      have hge := h'.2.2 m ((hmodel m).mpr h.1) ((hcube m).mpr h.2.1)
      rw [hcount, hcount] at hge
      rw [hcount]
      exact hle.antisymm hge

/-- After any calls a solve under assumptions leaves a best model of the clauses and the
assumptions, if there is one. It depends neither on the order of the assumptions nor on what was
asked before. -/
theorem assumpSolve_right (h : Reached S calls x) (hassumps : x.Admits (.assumpSolve assumps)) :
    Meets (fun r ↦ Optimum (hardClauses calls) (optimizationLits calls) assumps r.1) x.TooLarge
      (x.solver.assumpSolve S x.vm assumps) ∧
    (∀ c, x.Admits c → Meets (fun _ ↦ True) (x.Fails c) (x.call S c)) ∧
    ∀ S' calls' x' assumps', Reached S' calls' x' → x'.Admits (.assumpSolve assumps') →
      (∀ σ, satClauses σ (hardClauses calls') ↔ satClauses σ (hardClauses calls)) →
      (optimizationLits calls').Perm (optimizationLits calls) → assumps'.Perm assumps →
      ∀ r r', x.solver.assumpSolve S x.vm assumps = .ok r →
        x'.solver.assumpSolve S' x'.vm assumps' = .ok r' → r'.1.isSome = r.1.isSome ∧
          ∀ m m', r.1 = some m → r'.1 = some m' →
            trueCount m' (optimizationLits calls') = trueCount m (optimizationLits calls) := by
  refine ⟨(h.holds.assumpSolve hassumps).imp fun _ ↦ And.right, fun c hc ↦ ?_, ?_⟩
  · exact (call_meets h.holds hc).imp fun _ _ ↦ trivial
  · intro S' calls' x' assumps' h' hassumps' hhard hsoft hperm r r' hr hr'
    have hanswer := ((h.holds.assumpSolve hassumps).of_ok hr).2
    have hanswer' := ((h'.holds.assumpSolve hassumps').of_ok hr').2
    exact hanswer.alike hanswer' hhard hsoft hperm

theorem assumpSolve_right_three : ∃ x,
    Reached .exhaustive [.addForOptimization 4, .addForOptimization 6, .addClause [5, 7], .solve,
      .addForOptimization 8, .addClause [6, 9]] x ∧
    Meets (fun r ↦ Optimum [[5, 7], [6, 9]] [4, 6, 8] [5, 8] r.1) x.TooLarge
      (x.solver.assumpSolve .exhaustive x.vm [5, 8]) ∧
    ∀ r r', x.solver.assumpSolve .exhaustive x.vm [5, 8] = .ok r →
      x.solver.assumpSolve .exhaustive x.vm [8, 5] = .ok r' → r'.1.isSome = r.1.isSome ∧
        ∀ m m', r.1 = some m → r'.1 = some m' → trueCount m' [4, 6, 8] = trueCount m [4, 6, 8] := by
  have hstart : Reached .exhaustive [] (.start .three) := .start _ VariableManager.inv_three
  have hids : ∀ lit ∈ [4, 5, 6, 7, 8, 9], strip lit ∈ (Session.start .three).ids := by
    have hall : ∀ lit ∈ [4, 5, 6, 7, 8, 9], idFalse ≤ strip lit ∧ strip lit < VariableManager.three.nextID := by decide
    exact hall
  obtain ⟨x₃, h₃, hids₃, hroom⟩ : ∃ x,
      Reached .exhaustive [.addForOptimization 4, .addForOptimization 6, .addClause [5, 7]] x ∧
        x.ids = (Session.start .three).ids ∧ ∀ e, ¬ x.TooLarge e := by
    refine ⟨_, ((hstart.call (.addForOptimization 4) (hids 4 (by decide)) rfl).call (.addForOptimization 6)
      (hids 6 (by decide)) rfl).call (.addClause [5, 7]) ⟨by decide, fun lit hl ↦ .inl (hids lit ?_)⟩ rfl, rfl,
      fun e he ↦ absurd he.2 (by decide)⟩
    revert lit
    decide
  obtain ⟨x₄, h₄, hids₄⟩ := h₃.exists_call (c := .solve) trivial hroom
  rw [hids₃] at hids₄
  have hopt : x₄.Admits (.addForOptimization 8) := by
    change strip 8 ∈ x₄.ids
    rw [hids₄ nofun]
    exact hids 8 (by decide)
  obtain ⟨x₅, h₅, hids₅⟩ := h₄.exists_call hopt fun _ ↦ id
  rw [hids₄ nofun] at hids₅
  have howned : ∀ lit ∈ [4, 5, 6, 7, 8, 9], strip lit ∈ x₅.owned := fun lit hl ↦ .inl (hids₅ nofun ▸ hids lit hl)
  have hclause : x₅.Admits (.addClause [6, 9]) := by
    refine ⟨by decide, fun lit hl ↦ howned lit ?_⟩
    revert lit
    decide
  obtain ⟨x, h, hids₆⟩ := h₅.exists_call hclause fun _ ↦ id
  have howned' : ∀ lit ∈ [4, 5, 6, 7, 8, 9], strip lit ∈ x.owned := fun lit hl ↦
    .inl (hids₆ nofun ▸ hids₅ nofun ▸ hids lit hl)
  have hassumps : x.Admits (.assumpSolve [5, 8]) := fun lit hl ↦ by
    refine howned' lit ?_
    revert lit
    decide
  have hassumps' : x.Admits (.assumpSolve [8, 5]) := fun lit hl ↦ hassumps lit (by simpa [or_comm] using hl)
  obtain ⟨hsolve, -, halike⟩ := assumpSolve_right h hassumps
  refine ⟨x, h, hsolve, fun r r' hr hr' ↦ ?_⟩
  exact halike _ _ _ _ h hassumps' (fun _ ↦ .rfl) (.refl _) (List.Perm.swap 5 8 []) r r' hr hr'

end Sessions

end PBOMaxSATSolver

end PME
