import PME.SeedSearch

namespace PME

open Outcome MSU4MaxSATSolver MSU4MapSolver

def chosen (selects : List ℕ) (t : Finset ℕ) : Finset ℕ :=
  (Finset.range selects.length).filter fun c ↦ selects.getD c 0 ∈ t

def variablesOf (selects : List ℕ) (s : Finset ℕ) : Finset ℕ := s.image (selects.getD · 0)

def selectClause (selects : List ℕ) (neg pos : List ℕ) : Clause :=
  neg.map (fun c ↦ negate (selects.getD c 0)) ++ pos.map (selects.getD · 0)

section Sets

variable {selects : List ℕ} {s t : Finset ℕ} {neg pos : List ℕ}

theorem getD_mem {c : ℕ} (hc : c < selects.length) : selects.getD c 0 ∈ selects := by
  rw [List.getD_eq_getElem _ _ hc]
  exact List.getElem_mem hc

theorem getD_injOn (h : selects.Nodup) : Set.InjOn (selects.getD · 0) {c | c < selects.length} := by
  intro a ha b hb heq
  have ha' : a < selects.length := ha
  have hb' : b < selects.length := hb
  dsimp only at heq
  rw [List.getD_eq_getElem _ _ ha', List.getD_eq_getElem _ _ hb'] at heq
  exact (List.Nodup.getElem_inj_iff h).mp heq

theorem mem_chosen {c : ℕ} : c ∈ chosen selects t ↔ c < selects.length ∧ selects.getD c 0 ∈ t := by
  rw [chosen, Finset.mem_filter, Finset.mem_range]

theorem chosen_subset (t : Finset ℕ) : chosen selects t ⊆ Finset.range selects.length :=
  Finset.filter_subset _ _

theorem variablesOf_subset (hs : s ⊆ Finset.range selects.length) :
    variablesOf selects s ⊆ selects.toFinset := by
  intro v hv
  obtain ⟨c, hc, rfl⟩ := Finset.mem_image.mp hv
  exact List.mem_toFinset.mpr (getD_mem (Finset.mem_range.mp (hs hc)))

theorem chosen_variablesOf (h : selects.Nodup) (hs : s ⊆ Finset.range selects.length) :
    chosen selects (variablesOf selects s) = s := by
  ext c
  rw [mem_chosen]
  constructor
  · intro hc
    obtain ⟨d, hd, heq⟩ := Finset.mem_image.mp hc.2
    have hsame : d = c := getD_injOn h (Finset.mem_range.mp (hs hd)) hc.1 heq
    exact hsame ▸ hd
  · intro hc
    exact ⟨Finset.mem_range.mp (hs hc), Finset.mem_image_of_mem _ hc⟩

theorem card_variablesOf (h : selects.Nodup) (hs : s ⊆ Finset.range selects.length) :
    (variablesOf selects s).card = s.card :=
  Finset.card_image_of_injOn fun _ ha _ hb heq ↦
    getD_injOn h (Finset.mem_range.mp (hs ha)) (Finset.mem_range.mp (hs hb)) heq

theorem card_chosen (h : selects.Nodup) (ht : t ⊆ selects.toFinset) :
    (chosen selects t).card = t.card := by
  have heq : variablesOf selects (chosen selects t) = t := by
    ext v
    constructor
    · intro hv
      obtain ⟨c, hc, rfl⟩ := Finset.mem_image.mp hv
      exact (mem_chosen.mp hc).2
    · intro hv
      obtain ⟨c, hc, rfl⟩ := List.getElem_of_mem (List.mem_toFinset.mp (ht hv))
      rw [← List.getD_eq_getElem _ 0 hc] at hv ⊢
      exact Finset.mem_image_of_mem _ (mem_chosen.mpr ⟨hc, hv⟩)
  rw [← card_variablesOf h (chosen_subset t), heq]

theorem satClause_selectClause (h : IDSet selects) (hneg : ∀ c ∈ neg, c < selects.length)
    (hpos : ∀ c ∈ pos, c < selects.length) : satClause (seedVal t) (selectClause selects neg pos) ↔
      (∃ c ∈ neg, c ∉ chosen selects t) ∨ ∃ c ∈ pos, c ∈ chosen selects t := by
  have hval : ∀ c < selects.length,
      (litVal (seedVal t) (selects.getD c 0) = true ↔ c ∈ chosen selects t) := by
    intro c hc
    rw [h.litVal (getD_mem hc), seedVal_eq_true, mem_chosen]
    exact ⟨fun ht ↦ ⟨hc, ht⟩, And.right⟩
  rw [selectClause, satClause_append]
  refine or_congr ⟨fun hex ↦ ?_, fun hex ↦ ?_⟩ ⟨fun hex ↦ ?_, fun hex ↦ ?_⟩
  · obtain ⟨lit, hl, hv⟩ := hex
    obtain ⟨c, hc, rfl⟩ := List.mem_map.mp hl
    refine ⟨c, hc, fun hmem ↦ ?_⟩
    rw [litVal_negate, (hval c (hneg c hc)).mpr hmem] at hv
    exact Bool.false_ne_true hv
  · obtain ⟨c, hc, hno⟩ := hex
    refine ⟨_, List.mem_map_of_mem hc, ?_⟩
    rw [litVal_negate, Bool.not_eq_true', Bool.eq_false_iff]
    exact mt (hval c (hneg c hc)).mp hno
  · obtain ⟨lit, hl, hv⟩ := hex
    obtain ⟨c, hc, rfl⟩ := List.mem_map.mp hl
    exact ⟨c, hc, (hval c (hpos c hc)).mp hv⟩
  · obtain ⟨c, hc, hmem⟩ := hex
    exact ⟨_, List.mem_map_of_mem hc, (hval c (hpos c hc)).mpr hmem⟩

theorem over_selectClause (h : IDSet selects) (hneg : ∀ c ∈ neg, c < selects.length)
    (hpos : ∀ c ∈ pos, c < selects.length) : Over selects (selectClause selects neg pos) := by
  intro lit hl
  left
  cases List.mem_append.mp hl with
  | inl hl =>
    obtain ⟨c, hc, rfl⟩ := List.mem_map.mp hl
    rw [strip_negate, h.strip (getD_mem (hneg c hc))]
    exact getD_mem (hneg c hc)
  | inr hl =>
    obtain ⟨c, hc, rfl⟩ := List.mem_map.mp hl
    rw [h.strip (getD_mem (hpos c hc))]
    exact getD_mem (hpos c hc)

end Sets

section Solver

variable {S : SAT.Solver} {sign : ℕ → ℕ} {selects : List ℕ} {solver : MSU4MaxSATSolver}
  {Q Q' : Finset ℕ → Prop} {fail : Failure → Prop} {vm : VariableManager}

structure Growing (S : SAT.Solver) (sign : ℕ → ℕ) (selects : List ℕ) (solver : MSU4MaxSATSolver) :
    Prop where
  idSet : IDSet selects
  rest : Rest (owner selects) S solver
  opt : solver.optimizationSet.Perm (selects.map sign)
  plain : ∀ v ∈ varsOf solver.solver.clauses, v ∈ owner selects → v ∈ varsOf solver.clauses ∨ v = idFalse

structure Selecting (S : SAT.Solver) (sign : ℕ → ℕ) (selects : List ℕ) (Q : Finset ℕ → Prop)
    (solver : MSU4MaxSATSolver) : Prop where
  idSet : IDSet selects
  rep : MSU4MapSolver.Rep S sign selects (fun t ↦ Q (chosen selects t)) ⟨selects, solver, true⟩

theorem Growing.new (hvm : vm.Inv) : Growing S sign [] (MSU4MaxSATSolver.new vm) := by
  have hids : IDSet [] := ⟨List.nodup_nil, nofun, nofun⟩
  have hrep : MSU4MapSolver.Rep S sign [] (fun _ ↦ True) (.new vm []) := .new hids hvm nofun
  exact ⟨hids, hrep.rest, List.Perm.refl _, (hrep.fresh rfl).2⟩

theorem Growing.withVars (h : Growing S sign selects solver) (hvm : vm.Inv)
    (hle : solver.vars.nextID ≤ vm.nextID) : Growing S sign selects { solver with vars := vm } where
  idSet := h.idSet
  rest := h.rest.withVars hvm hle (fun _ hv ↦ hv) (fun _ hv ↦ .inl hv) id
  opt := h.opt
  plain := h.plain

theorem owner_snoc {select v : ℕ} : v ∈ owner (selects ++ [select]) ↔ v ∈ owner selects ∨ v = select := by
  change (v ∈ selects ++ [select] ∨ v = idFalse) ↔ (v ∈ selects ∨ v = idFalse) ∨ v = select
  rw [List.mem_append, List.mem_singleton]
  tauto

theorem Growing.add (h : Growing S sign selects solver) (hsign : IsSign sign) {select : ℕ}
    (hsel : select = solver.vars.nextID) (hvm : vm.Inv) (hlt : select < vm.nextID) :
    Meets (fun solver' ↦ Growing S sign (selects ++ [select]) solver' ∧
      solver'.clauses = solver.clauses ∧ solver'.vars = vm) fail
      ({ solver with vars := vm }.addForOptimization (sign select)) := by
  have hold : ∀ v ∈ owner selects, v < select := fun v hv ↦ hsel ▸ h.rest.shape.lt v hv
  have heven : select % 2 = 0 := hsel ▸ h.rest.shape.vars.even
  have hids : IDSet (selects ++ [select]) := by
    refine ⟨List.nodup_append.mpr ⟨h.idSet.nodup, List.nodup_singleton _, fun a ha b hb hab ↦ ?_⟩,
      fun id hid ↦ ?_, fun id hid ↦ ?_⟩
    · have hlt' := hold a (.inl ha)
      rw [hab, List.mem_singleton.mp hb] at hlt'
      exact absurd hlt' (Nat.lt_irrefl _)
    · cases List.mem_append.mp hid with
      | inl hid => exact h.idSet.even id hid
      | inr hid => exact List.mem_singleton.mp hid ▸ heven
    · cases List.mem_append.mp hid with
      | inl hid => exact h.idSet.ge id hid
      | inr hid => exact List.mem_singleton.mp hid ▸ hsel ▸ h.rest.shape.vars.minId_le
  have hrest : Rest (owner (selects ++ [select])) S { solver with vars := vm } := by
    refine h.rest.withVars hvm (by omega) (fun v hv ↦ owner_snoc.mpr (.inl hv)) (fun v hv ↦ ?_) id
    refine (owner_snoc.mp hv).imp_right fun heq ↦ ?_
    omega
  have hplain : ∀ v ∈ varsOf solver.solver.clauses, v ∈ owner (selects ++ [select]) →
      v ∈ varsOf solver.clauses ∨ v = idFalse := by
    intro v hv hU
    cases owner_snoc.mp hU with
    | inl hU => exact h.plain v hv hU
    | inr heq =>
      have hlt' := h.rest.shape.dbVars v hv
      omega
  have hlit : strip (sign select) = select := by
    rw [strip_sign hsign, strip_of_even heven]
  have hnew : sign select ∉ solver.optimizationSet := by
    intro hmem
    obtain ⟨id, hid, heq⟩ := List.mem_map.mp (h.opt.mem_iff.mp hmem)
    have hstrip : id = select := by
      rw [← h.idSet.strip hid, ← strip_sign hsign, heq, hlit]
    have hlt' := hold id (.inl hid)
    omega
  refine (addForOptimization_meets hrest (hlit.symm ▸ owner_snoc.mpr (.inr rfl)) (fun _ hv ↦ hv)
    (fun _ hv ↦ hv) (fun _ ↦ ⟨trivial, hplain⟩) fun hmem ↦ absurd hmem hnew).imp fun solver' hs ↦ ?_
  obtain ⟨hrest', rfl⟩ := hs
  refine ⟨⟨hids, hrest', ?_, hplain⟩, rfl, rfl⟩
  refine (List.perm_orderedInsert _ _ _).trans ?_
  rw [List.map_append]
  exact (h.opt.cons _).trans (List.perm_append_singleton _ _).symm

theorem Growing.addClause (h : Growing S sign selects solver) {cls : Clause} (hne : cls ≠ [])
    (hover : Over selects cls) :
    Meets (fun solver' ↦ Growing S sign selects solver' ∧ solver'.clauses = solver.clauses ++ [cls] ∧
      solver'.vars = solver.vars) fail (solver.addClause cls) := by
  have hlits : ∀ lit ∈ cls, strip lit ∈ owner selects := hover
  refine (MSU4MaxSATSolver.addClause_meets h.rest hne hlits).imp fun solver' hs ↦ ?_
  obtain ⟨hrest, hcl, hopt, hvars, hdb⟩ := hs
  refine ⟨⟨h.idSet, hrest, hopt ▸ h.opt, fun v hv hU ↦ ?_⟩, hcl, hvars⟩
  rw [hdb] at hv
  rw [hcl, varsOf_append]
  cases varsOf_append.mp hv with
  | inl hv => exact (h.plain v hv hU).imp_left .inl
  | inr hv => exact .inl (.inr hv)

theorem Selecting.congr (h : Selecting S sign selects Q solver)
    (hQ : ∀ s ⊆ Finset.range selects.length, Q s ↔ Q' s) : Selecting S sign selects Q' solver :=
  ⟨h.idSet, h.rep.congr fun t _ ↦ hQ _ (chosen_subset t)⟩

theorem Selecting.withVars (h : Selecting S sign selects Q solver) (hvm : vm.Inv)
    (hle : solver.vars.nextID ≤ vm.nextID) :
    Selecting S sign selects Q { solver with vars := vm } :=
  ⟨h.idSet, h.rep.withVars hvm hle⟩

theorem Selecting.addClause (h : Selecting S sign selects Q solver) {neg pos : List ℕ}
    (hneg : ∀ c ∈ neg, c < selects.length) (hpos : ∀ c ∈ pos, c < selects.length)
    (hne : selectClause selects neg pos ≠ []) :
    Meets (fun solver' ↦ Selecting S sign selects
        (fun s ↦ Q s ∧ ((∃ c ∈ neg, c ∉ s) ∨ ∃ c ∈ pos, c ∈ s)) solver' ∧
      solver'.vars = solver.vars) fail (solver.addClause (selectClause selects neg pos)) := by
  have hadd : Meets _ fail _ := MSU4MapSolver.addClause_meets h.rep hne
    (over_selectClause h.idSet hneg hpos)
  unfold addClauseToSolver at hadd
  cases hsolver : solver.addClause (selectClause selects neg pos) with
  | error e =>
    rw [hsolver] at hadd
    exact hadd
  | ok solver' =>
    rw [hsolver] at hadd
    exact ⟨⟨h.idSet, hadd.1.congr fun t _ ↦
      and_congr_right fun _ ↦ satClause_selectClause h.idSet hneg hpos⟩, hadd.2⟩

def Solves (selects : List ℕ) (Q : Finset ℕ → Prop) (better : ℕ → ℕ → Prop)
    (solver : MSU4MaxSATSolver) (sat : Bool) : Prop :=
  (sat = false → ∀ s ⊆ Finset.range selects.length, ¬ Q s) ∧
  (sat = true → solver.isSAT = true ∧ ∃ s ⊆ Finset.range selects.length, Q s ∧
    (∀ c < selects.length, solver.getAssignment (selects.getD c 0) = .ok (decide (c ∈ s))) ∧
    ∀ s' ⊆ Finset.range selects.length, Q s' → better s.card s'.card)

theorem Selecting.solve (h : Selecting S sign selects Q solver) (hsign : IsSign sign)
    (hS : S.Relevant) (o : MSU4Options) {better : ℕ → ℕ → Prop}
    (hbetter : ∀ t ⊆ selects.toFinset, ∀ t' ⊆ selects.toFinset,
      trueCount (seedVal t') (selects.map sign) ≤ trueCount (seedVal t) (selects.map sign) →
        better t.card t'.card) (hfail : Enough selects solver.vars fail) :
    Meets (fun r ↦ Selecting S sign selects Q r.1 ∧ solver.vars.nextID ≤ r.1.vars.nextID ∧
      Solves selects Q better r.1 r.2) fail (solver.doSolve o S) := by
  refine (search_meets h.idSet hsign hS h.rep rfl hfail.1 hfail.2).imp fun r hr ↦ ?_
  obtain ⟨hrep, htakes, hnone, hsome⟩ := hr
  have hnodup := h.idSet.nodup
  refine ⟨⟨h.idSet, hrep⟩, htakes.1, fun hno s hs hQ ↦ ?_, fun hyes ↦ ?_⟩
  · refine hnone hno _ (variablesOf_subset hs) ?_
    rw [chosen_variablesOf hnodup hs]
    exact hQ
  · obtain ⟨hsat, t, ht, hQ, hvals, hbest⟩ := hsome hyes
    refine ⟨hsat, _, chosen_subset t, hQ, fun c hc ↦ ?_, fun s' hs' hQ' ↦ ?_⟩
    · rw [hvals _ (getD_mem hc)]
      refine congrArg Except.ok (decide_eq_decide.mpr ?_)
      rw [mem_chosen]
      exact ⟨fun hmem ↦ ⟨hc, hmem⟩, And.right⟩
    · rw [card_chosen hnodup ht, ← card_variablesOf hnodup hs']
      refine hbetter t ht _ (variablesOf_subset hs') (hbest _ (variablesOf_subset hs') ?_)
      rw [chosen_variablesOf hnodup hs']
      exact hQ'

end Solver

end PME
