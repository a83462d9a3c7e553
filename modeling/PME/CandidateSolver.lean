import PME.CAIVC
import PME.Lib.Duality

namespace PME.CAIVCFinder

open Outcome IC3 HittingSets Exploration MSU4MaxSATSolver HittingSetFinder

def RunsOut (e : Failure) : Prop := e = .idsExhausted ∨ e = .narrowed

/-- What the solver stands for, while the manager is `vm`: the sets that hit `sets` and contain none of
those blocked. None is left where the empty set is blocked. -/
structure Serves (S : SAT.Solver) (gates : List ℕ) (sets blocked : List (Finset ℕ)) (vm : VariableManager)
    (s : MSU4MaxSATSolver) : Prop where
  le : s.vars.nextID ≤ vm.nextID
  encodes : ∅ ∉ blocked → Encodes S {v | v ∈ gates} gates sets blocked s
  closed : ∅ ∈ blocked → Rest (owner {v | v ∈ gates}) S s ∧ (∀ σ, ¬ s.IsModel σ) ∧
    s.optimizationSet.length = gates.length

variable {S : SAT.Solver} {gates : List ℕ} {sets blocked : List (Finset ℕ)} {vm vm' : VariableManager}
  {s : MSU4MaxSATSolver} {fail : Failure → Prop} {o : MSU4Options}

theorem Serves.later (h : Serves S gates sets blocked vm s) (hle : vm.nextID ≤ vm'.nextID) :
    Serves S gates sets blocked vm' s := { h with le := h.le.trans hle }

theorem Serves.withVars (h : Serves S gates sets blocked vm s) (hvm : vm.Inv) :
    Serves S gates sets blocked vm { s with vars := vm } := by
  have hrest : Rest (owner {v | v ∈ gates}) S s → Rest (owner {v | v ∈ gates}) S { s with vars := vm } := fun hrest ↦
    hrest.withVars hvm h.le (fun _ hv ↦ hv) (fun _ hv ↦ .inl hv) id
  refine ⟨le_rfl, fun hopen ↦ ?_, fun hclosed ↦ ?_⟩
  · have henc := h.encodes hopen
    exact { henc with rest := hrest henc.rest }
  · obtain ⟨hr, hnone⟩ := h.closed hclosed
    exact ⟨hrest hr, hnone⟩

theorem Serves.length (h : Serves S gates sets blocked vm s) : s.optimizationSet.length = gates.length := by
  by_cases hmem : ∅ ∈ blocked
  · exact (h.closed hmem).2.2
  · rw [(h.encodes hmem).opt.length_eq, List.length_map]

theorem addClause_vars (s : MSU4MaxSATSolver) (cls : Clause) :
    Meets (fun s' ↦ s'.vars = s.vars) (fun _ ↦ True) (s.addClause cls) := (meets_any _).bind fun _ _ ↦ rfl

theorem Serves.addSet (h : Serves S gates sets blocked vm s) (hvm : vm.Inv) (hopen : ∅ ∉ blocked) {corr : List ℕ}
    (hne : corr ≠ []) (hsub : corr ⊆ gates) :
    Meets (Serves S gates (sets ++ [corr.toFinset]) blocked vm) fail ({ s with vars := vm }.addClause corr) := by
  have henc : Meets _ fail ({ s with vars := vm }.addClause corr) :=
    ((h.withVars hvm).encodes hopen).addSet hne hsub
  refine (henc.and (addClause_vars _ corr)).imp fun s' hs' ↦ ?_
  exact ⟨hs'.2 ▸ le_rfl, fun _ ↦ hs'.1, fun hclosed ↦ absurd hclosed hopen⟩

/-- A set is blocked with its supersets; for the empty set that is the clause `false`. -/
theorem Serves.block (h : Serves S gates sets blocked vm s) (hvm : vm.Inv) (hopen : ∅ ∉ blocked) {mivc : List ℕ}
    (hsub : mivc ⊆ gates) :
    Meets (Serves S gates sets (blocked ++ [mivc.toFinset]) vm) fail
      ({ s with vars := vm }.addClause (if mivc.isEmpty then [idFalse] else negateVec mivc)) := by
  have henc := (h.withVars hvm).encodes hopen
  cases mivc with
  | nil =>
    have hadd : Meets _ fail ({ s with vars := vm }.addClause [idFalse]) :=
      addClause_meets henc.rest (List.cons_ne_nil _ _) fun lit hl ↦ by
        rw [List.mem_singleton.mp hl]
        exact Set.mem_insert _ _
    refine (hadd.and (addClause_vars _ _)).imp fun s' hs' ↦ ?_
    obtain ⟨⟨hrest, hcl, hopt, -, -⟩, hvars⟩ := hs'
    refine ⟨hvars ▸ le_rfl, fun hno ↦ absurd (List.mem_append_right _ (List.mem_singleton_self _)) hno, fun _ ↦
      ⟨hrest, fun σ hσ ↦ ?_, ?_⟩⟩
    · rw [IsModel, hcl, isModel_addClause] at hσ
      obtain ⟨hmodel, lit, hl, hval⟩ := hσ
      have htrue := hmodel [idTrue] List.mem_cons_self
      obtain ⟨lit', hl', hval'⟩ := htrue
      rw [List.mem_singleton.mp hl] at hval
      rw [List.mem_singleton.mp hl', litVal_idTrue] at hval'
      rw [litVal_idFalse] at hval
      rw [hval] at hval'
      exact absurd hval' (by decide)
    · rw [hopt, henc.opt.length_eq, List.length_map]
  | cons gate mivc =>
    have hadd : Meets _ fail ({ s with vars := vm }.addClause (negateVec (gate :: mivc))) :=
      henc.block (List.cons_ne_nil gate mivc) hsub
    refine (hadd.and (addClause_vars _ _)).imp fun s' hs' ↦ ?_
    refine ⟨hs'.2 ▸ le_rfl, fun _ ↦ hs'.1, fun hclosed ↦ ?_⟩
    cases List.mem_append.mp hclosed with
    | inl hin => exact absurd hin hopen
    | inr hin =>
      have hempty := (List.toFinset_eq_empty_iff _).mp (List.mem_singleton.mp hin).symm
      exact absurd hempty (List.cons_ne_nil gate mivc)

theorem isSAT_of_getAssignment {lit : ℕ} {b : Bool} (h : s.getAssignment lit = .ok b) : s.isSAT = true := by
  unfold MSU4MaxSATSolver.getAssignment at h
  obtain ⟨u, hsat, -⟩ := bind_eq_ok.mp h
  exact ensure_eq_ok hsat

def Solves (gates : List ℕ) (sets blocked : List (Finset ℕ)) (r : MSU4MaxSATSolver × Bool) : Prop :=
  (r.2 = false → ∀ t, ¬ Admissible sets blocked t) ∧
    (r.2 = true → ∅ ∉ blocked ∧ ∃ t ⊆ gates.toFinset, IsMinimum (Admissible sets blocked) t ∧
      ∀ id ∈ gates, r.1.getAssignment id = .ok (decide (id ∈ t)))

theorem runsOut_of_tooLarge (h : s.optimizationSet.length < 2 ^ 32) {e : Failure} (he : s.TooLarge e) : RunsOut e := by
  cases e with
  | narrowed => exact .inr rfl
  | idsExhausted => exact .inl rfl
  | assertion => exact absurd he (Nat.not_le.mpr h)
  | _ => exact absurd he id

theorem Serves.solve (hS : S.Relevant) (h : Serves S gates sets blocked vm s) (hvm : vm.Inv)
    (hmany : gates.length < 2 ^ 32) (hsets : ∀ t ∈ sets, t ⊆ gates.toFinset) :
    Meets (fun r ↦ Solves gates sets blocked r ∧ Serves S gates sets blocked r.1.vars r.1 ∧
      r.1.vars.Inv ∧ vm.nextID ≤ r.1.vars.nextID) RunsOut ({ s with vars := vm }.doSolve o S) := by
  have hs := h.withVars hvm
  have hfails : ∀ e, MSU4MaxSATSolver.TooLarge { s with vars := vm } e → RunsOut e := fun e he ↦
    runsOut_of_tooLarge (hs.length.trans_lt hmany) he
  by_cases hmem : ∅ ∈ blocked
  · obtain ⟨hrest, hnone, hlen⟩ := hs.closed hmem
    have hready : MSU4MaxSATSolver.Ready o { s with vars := vm } := fun _ hex ↦ absurd hex (not_exists.mpr hnone)
    refine ((hrest.solve hready).weaken hfails).imp fun r hr ↦ ?_
    have hno : r.2 ≠ true := fun hyes ↦ not_exists.mpr hnone (hr.sat.mp hyes)
    refine ⟨⟨fun _ t ht ↦ ht.2 ∅ hmem (Finset.empty_subset t), fun hyes ↦ absurd hyes hno⟩,
      ⟨le_rfl, fun hopen ↦ absurd hmem hopen, fun _ ↦ ⟨hr.rest, fun σ hσ ↦ ?_, ?_⟩⟩, hr.rest.shape.vars, hr.same.le⟩
    · rw [IsModel, hr.same.clauses] at hσ
      exact hnone σ hσ
    · rw [hr.same.optimizationSet]
      exact hlen
  · have henc := hs.encodes hmem
    have hinter : ∀ t, Admissible sets blocked t → Admissible sets blocked (t ∩ gates.toFinset) := by
      intro t ht
      exact ht.inter hsets
    have hsolved : Meets (Solved (owner {v | v ∈ gates}) S { s with vars := vm }) (fun _ ↦ True)
        ({ s with vars := vm }.doSolve o S) :=
      (henc.rest.solve (henc.mentioned hS).ready).weaken fun _ _ ↦ trivial
    refine (((henc.solve hS hinter).weaken hfails).and hsolved).imp fun r hr ↦ ?_
    obtain ⟨⟨henc', hnone, hsome⟩, hdone⟩ := hr
    exact ⟨⟨hnone, fun hyes ↦ ⟨hmem, hsome hyes⟩⟩, ⟨le_rfl, fun _ ↦ henc', fun hclosed ↦ absurd hclosed hmem⟩,
      henc'.rest.shape.vars, hdone.same.le⟩

end PME.CAIVCFinder
