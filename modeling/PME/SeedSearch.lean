import PME.MapContract

namespace PME

open Outcome

section Values

variable {ids : List ℕ} {vec : ClauseVec} {t : Finset ℕ} {σ : Assignment} {seed : Seed}

theorem satClauses_seedVal (h : IDSet ids) (hover : ∀ v ∈ varsOf vec, v ∈ ids ∨ v = idFalse)
    (hconst : [idTrue] ∈ vec) (ht : t ⊆ ids.toFinset) (hσ : satClauses σ vec)
    (heq : ∀ v ∈ varsOf vec, v ∈ ids → (v ∈ t ↔ σ v = true)) : satClauses (seedVal t) vec := by
  refine (satClauses_congr fun v hv ↦ ?_).mpr hσ
  cases hover v hv with
  | inl hid =>
    rw [Bool.eq_iff_iff, seedVal_eq_true]
    exact heq v hv hid
  | inr hid =>
    have hfalse : seedVal t idFalse = false :=
      decide_eq_false fun hmem ↦ h.const (List.mem_toFinset.mp (ht hmem))
    obtain ⟨lit, hl, hval⟩ := hσ _ hconst
    rw [List.mem_singleton.mp hl, litVal_idTrue, Bool.not_eq_true'] at hval
    rw [hid, hfalse, hval]

theorem satCube_seedAssumps (h : IDSet ids) :
    satCube σ (seedAssumps ids seed) ↔ ∀ id ∈ ids, (id ∈ ids.toFinset ∩ seed.toFinset ↔ σ id = true) := by
  unfold satCube seedAssumps
  rw [List.forall_mem_map]
  refine forall₂_congr fun id hid ↦ ?_
  have hmem : id ∈ ids.toFinset ∩ seed.toFinset ↔ seed.contains id = true := by
    rw [Finset.mem_inter, List.mem_toFinset, List.mem_toFinset, List.contains_iff_mem]
    exact ⟨And.right, fun hs ↦ ⟨hid, hs⟩⟩
  rw [hmem]
  by_cases hs : seed.contains id = true
  · rw [if_pos hs, h.litVal hid]
    exact ⟨fun hv ↦ ⟨fun _ ↦ hv, fun _ ↦ hs⟩, fun hv ↦ hv.mp hs⟩
  · rw [if_neg hs, litVal_negate, h.litVal hid, Bool.not_eq_true', ← Bool.not_eq_true]
    exact ⟨fun hv ↦ ⟨fun hc ↦ absurd hc hs, fun hc ↦ absurd hc hv⟩, fun hv hc ↦ hs (hv.mpr hc)⟩

theorem satClauses_const (h : IDSet ids) (ht : t ⊆ ids.toFinset) :
    satClauses (seedVal t) [[idTrue]] := by
  have hfalse : seedVal t idFalse = false :=
    decide_eq_false fun hmem ↦ h.const (List.mem_toFinset.mp (ht hmem))
  refine (satClauses_cons _ _).mpr ⟨(satClause_cons _ _).mpr (.inl ?_), satClauses_nil⟩
  rw [litVal_idTrue, hfalse]
  rfl

theorem exists_check_iff (h : IDSet ids) (hover : ∀ v ∈ varsOf vec, v ∈ ids ∨ v = idFalse)
    (hconst : [idTrue] ∈ vec) :
    (∃ σ, satClauses σ vec ∧ satCube σ (seedAssumps ids seed)) ↔
      satClauses (seedVal (ids.toFinset ∩ seed.toFinset)) vec := by
  constructor
  · intro hex
    obtain ⟨σ, hσ, hc⟩ := hex
    exact satClauses_seedVal h hover hconst Finset.inter_subset_left hσ fun v _ hid ↦
      (satCube_seedAssumps h).mp hc v hid
  · intro hσ
    exact ⟨_, hσ, (satCube_seedAssumps h).mpr fun id _ ↦ seedVal_eq_true.symm⟩

theorem varsOf_singleton_over {cls : Clause} (h : Over ids cls) {v : ℕ} (hv : v ∈ varsOf [cls]) :
    v ∈ ids ∨ v = idFalse := by
  obtain ⟨c, hc, lit, hl, rfl⟩ := hv
  exact h lit (List.mem_singleton.mp hc ▸ hl)

theorem satClauses_snoc {cls : Clause} :
    satClauses σ (vec ++ [cls]) ↔ satClauses σ vec ∧ satClause σ cls := by
  rw [satClauses_append, satClauses_cons]
  exact ⟨fun hc ↦ ⟨hc.1, hc.2.1⟩, fun hc ↦ ⟨hc.1, hc.2, satClauses_nil⟩⟩

end Values

namespace SATArbitraryMapSolver

variable {ids : List ℕ} {P : Finset ℕ → Prop} {x : SATArbitraryMapSolver} {S : SAT.Solver}
  {fail : Failure → Prop}

structure Rep (ids : List ℕ) (P : Finset ℕ → Prop) (x : SATArbitraryMapSolver) : Prop where
  ids_eq : x.ids = ids
  const : [idTrue] ∈ x.map.clauses
  scope : ∀ v ∈ varsOf x.map.clauses, v ∈ ids ∨ v = idFalse
  known : ∀ v ∈ varsOf x.map.clauses, v ∈ x.map.known
  fits : ∀ t ⊆ ids.toFinset, P t ↔ satClauses (seedVal t) x.map.clauses

theorem Rep.new (hids : IDSet ids) : Rep ids (fun _ ↦ True) (new ids) := by
  have hvars : ∀ v ∈ varsOf [[idTrue]], v = idFalse := by
    intro v hv
    obtain ⟨cls, hc, lit, hl, rfl⟩ := hv
    rw [List.mem_singleton.mp hc, List.mem_singleton] at hl
    rw [hl, strip_idTrue]
  refine ⟨rfl, List.mem_singleton_self _, fun v hv ↦ .inr (hvars v hv), fun v hv ↦ ?_,
    fun t ht ↦ ⟨fun _ ↦ ?_, fun _ ↦ trivial⟩⟩
  · rw [hvars v hv]
    exact List.mem_singleton_self _
  · exact satClauses_const hids ht

theorem Rep.query (h : Rep ids P x) (assumps : Cube) :
    Rep ids P { x with map := (x.map.solve S assumps).2 } := by
  have hcl : (x.map.solve S assumps).2.clauses = x.map.clauses := SATAdaptor.solve_clauses S assumps
  refine ⟨h.ids_eq, ?_, ?_, fun v hv ↦ ?_, ?_⟩
  · rw [hcl]
    exact h.const
  · rw [hcl]
    exact h.scope
  · rw [hcl] at hv
    exact SATAdaptor.mem_introduceVariables.mpr (.inl (h.known v hv))
  · rw [hcl]
    exact h.fits

theorem extractSeed_meets (hids : IDSet ids) (h : Rep ids P x) {m : Assignment}
    (hm : satClauses m x.map.clauses) :
    Meets (fun seed ↦ seed.Sublist ids ∧ P seed.toFinset) fail (x.extractSeed m) := by
  have hfold : Meets (· = ids.filter fun id ↦ x.map.safeGetAssignment m id != some false) fail
      (x.extractSeed m) := by
    unfold extractSeed
    rw [h.ids_eq]
    refine foldlM_meets
      (fun done seed ↦ seed = done.filter fun id ↦ x.map.safeGetAssignment m id != some false)
      [] rfl ?_
    intro done id rest seed hl hseed
    have hid : id ∈ ids := by rw [← hl]; exact List.mem_append_right _ List.mem_cons_self
    rw [hids.not_negated hid, ensure_true, ok_bind, meets_pure, List.filter_append, hseed,
      List.filter_cons, List.filter_nil]
    cases x.map.safeGetAssignment m id != some false with
    | false => exact (List.append_nil _).symm
    | true => rfl
  refine hfold.imp fun seed hseed ↦ ?_
  have hsub : seed.Sublist ids := hseed ▸ List.filter_sublist
  have ht : seed.toFinset ⊆ ids.toFinset := fun id hid ↦
    List.mem_toFinset.mpr (hsub.subset (List.mem_toFinset.mp hid))
  refine ⟨hsub, (h.fits _ ht).mpr (satClauses_seedVal hids h.scope h.const ht hm fun v hv hid ↦ ?_)⟩
  have hsat : x.map.hasSAT v = true := by
    rw [SATAdaptor.hasSAT, hids.strip hid]
    exact List.contains_iff_mem.mpr (h.known v hv)
  rw [List.mem_toFinset, hseed, List.mem_filter, SATAdaptor.safeGetAssignment, if_pos hsat,
    hids.litVal hid]
  cases m v <;> simp [hid]

theorem blocks (hids : IDSet ids) : (solver S).Blocks ids (Rep ids) where
  idSet := hids
  ids_eq h := h.ids_eq
  congr h hPQ := { h with fits := fun t ht ↦ (hPQ t ht).symm.trans (h.fits t ht) }
  addClause := by
    intro P x cls h hne hover
    refine (SATAdaptor.addClause_meets hne).bind fun map hmap ↦ ?_
    obtain ⟨hdb, -, -, hknown⟩ := hmap
    rw [meets_pure]
    refine ⟨h.ids_eq, ?_, fun v hv ↦ ?_, fun v hv ↦ (hknown v).mpr ?_, fun t ht ↦ ?_⟩
    · dsimp only
      rw [hdb]
      exact List.mem_append_left _ h.const
    · dsimp only at hv
      rw [hdb] at hv
      cases MSU4MaxSATSolver.varsOf_append.mp hv with
      | inl hv => exact h.scope v hv
      | inr hv => exact varsOf_singleton_over hover hv
    · dsimp only at hv
      rw [hdb] at hv
      cases MSU4MaxSATSolver.varsOf_append.mp hv with
      | inl hv => exact .inl (h.known v hv)
      | inr hv =>
        obtain ⟨c, hc, lit, hl, rfl⟩ := hv
        exact .inr ⟨lit, List.mem_singleton.mp hc ▸ hl, rfl⟩
    · dsimp only
      rw [hdb, satClauses_snoc, h.fits t ht]
  checkSeed := by
    intro P x seed h
    have hquery : Rep ids P { x with map := (x.map.solve S (seedAssumps x.ids seed)).2 } :=
      h.query _
    refine ⟨hquery, ?_⟩
    refine (SATAdaptor.solve_isSat S _).trans ?_
    rw [h.ids_eq, exists_check_iff hids h.scope h.const]
    exact (h.fits _ Finset.inter_subset_left).symm

theorem findSeed_meets (hids : IDSet ids) (h : Rep ids P x) :
    Meets (fun r ↦ Rep ids P r.2 ∧ IsSeed ids P r.1) fail ((solver S).findSeed x) := by
  have hquery : Rep ids P { x with map := (x.map.solve S []).2 } := h.query []
  have hvalid : (x.map.solve S []).1.Valid x.map.clauses [] := SATAdaptor.solve_valid S []
  unfold solver findSeed
  dsimp only
  cases hans : (x.map.solve S []).1 with
  | sat m =>
    rw [hans] at hvalid
    have hm : satClauses m (x.map.solve S []).2.clauses := by
      rw [SATAdaptor.solve_clauses]
      exact hvalid.1
    exact (extractSeed_meets hids hquery hm).bind fun seed hseed ↦ ⟨hquery, hseed⟩
  | unsat crits =>
    rw [hans] at hvalid
    refine ⟨hquery, fun t ht hP ↦ ?_⟩
    exact hvalid.2.2 _ ((h.fits t ht).mp hP) (satCube_subset hvalid.1 satCube_nil)

theorem contract (hids : IDSet ids) : (solver S).Contract ids (fun _ ↦ Rep ids) fail where
  blocks _ := blocks hids
  fewer _ h := h
  findSeed := findSeed_meets hids

end SATArbitraryMapSolver

namespace MSU4MapSolver

open MSU4MaxSATSolver

variable {ids : List ℕ} {P : Finset ℕ → Prop} {x : MSU4MapSolver} {o : MSU4Options}
  {S : SAT.Solver} {sign : ℕ → ℕ} {fail : Failure → Prop}

def owner (ids : List ℕ) : Callers := ⟨{v | v ∈ ids ∨ v = idFalse}, True⟩

def IsSign (sign : ℕ → ℕ) : Prop := ∀ id, sign id = id ∨ sign id = negate id

/-- The failures that are left: an ID of 33 bits is put into an `unsigned`, or the IDs run out,
which needs more than `2 ^ 32` of them, or there are more IDs in the map than an `unsigned` counts. -/
def TooLarge (ids : List ℕ) (top : ℕ) (e : Failure) : Prop :=
  (e = .narrowed ∨ e = .idsExhausted) ∧ 2 ^ 32 < top ∨ e = .assertion ∧ 2 ^ 32 ≤ ids.length

theorem not_tooLarge {top : ℕ} (htop : top ≤ 2 ^ 32) (hlen : ids.length < 2 ^ 32) (e : Failure) :
    ¬ TooLarge ids top e := by
  rintro (⟨-, hlt⟩ | ⟨-, hge⟩) <;> omega

structure Rep (S : SAT.Solver) (sign : ℕ → ℕ) (ids : List ℕ) (P : Finset ℕ → Prop)
    (x : MSU4MapSolver) : Prop where
  ids_eq : x.ids = ids
  rest : Rest (owner ids) S x.map
  opt : x.mapInited = true → x.map.optimizationSet.Perm (ids.map sign)
  fresh : x.mapInited = false → x.map.optimizationSet = [] ∧
    ∀ v ∈ varsOf x.map.solver.clauses, v ∈ owner ids → v ∈ varsOf x.map.clauses ∨ v = idFalse
  fits : ∀ t ⊆ ids.toFinset, P t ↔ x.map.IsModel (seedVal t)

theorem strip_sign (h : IsSign sign) (id : ℕ) : strip (sign id) = strip id := by
  cases h id with
  | inl h => rw [h]
  | inr h => rw [h, strip_negate]

theorem sign_injOn (hids : IDSet ids) (h : IsSign sign) {a b : ℕ} (ha : a ∈ ids) (hb : b ∈ ids)
    (heq : strip (sign a) = strip (sign b)) : a = b := by
  rw [strip_sign h, strip_sign h, hids.strip ha, hids.strip hb] at heq
  exact heq

theorem negate_ne (id : ℕ) : negate id ≠ id := by
  intro h
  have hn := isNegated_negate id
  rw [h] at hn
  cases hv : isNegated id <;> simp [hv] at hn

theorem simple_of_perm (hids : IDSet ids) (h : IsSign sign) {s : MSU4MaxSATSolver}
    (hopt : s.optimizationSet.Perm (ids.map sign)) : s.Simple := by
  intro lit hl hneg
  obtain ⟨a, ha, rfl⟩ := List.mem_map.mp (hopt.mem_iff.mp hl)
  obtain ⟨b, hb, hab⟩ := List.mem_map.mp (hopt.mem_iff.mp hneg)
  have heq := sign_injOn hids h hb ha (by rw [hab, strip_negate])
  rw [heq] at hab
  exact negate_ne _ hab.symm

theorem Rep.over (h : Rep S sign ids P x) :
    ∀ v ∈ varsOf ([idTrue] :: x.map.clauses), v ∈ ids ∨ v = idFalse := fun _ hv ↦
  (varsOf_hard h.rest.shape hv).1

theorem Rep.new {vm : VariableManager} (hids : IDSet ids) (hvm : vm.Inv)
    (hlt : ∀ id ∈ ids, id < vm.nextID) : Rep S sign ids (fun _ ↦ True) (new vm ids) := by
  have hmin := hvm.minId_le
  have hid : minId = idFalse + 2 := rfl
  refine ⟨rfl, new_rest hvm (.inr rfl) fun v hv ↦ ?_, nofun, fun _ ↦ ⟨rfl, fun v hv _ ↦ .inr ?_⟩,
    fun t ht ↦ ⟨fun _ ↦ satClauses_const hids ht, fun _ ↦ trivial⟩⟩
  · cases hv with
    | inl hv => exact hlt v hv
    | inr hv =>
      rw [hv]
      omega
  · obtain ⟨cls, hc, lit, hl, rfl⟩ := hv
    rw [List.mem_singleton.mp hc, List.mem_singleton] at hl
    rw [hl, strip_idTrue]

theorem Rep.withVars (h : Rep S sign ids P x) {vm : VariableManager} (hvm : vm.Inv)
    (hle : x.map.vars.nextID ≤ vm.nextID) : Rep S sign ids P (x.withVars vm) where
  ids_eq := h.ids_eq
  rest := h.rest.withVars hvm hle (fun _ hv ↦ hv) (fun _ hv ↦ .inl hv) id
  opt := h.opt
  fresh := h.fresh
  fits := h.fits

theorem Rep.congr {Q : Finset ℕ → Prop} (h : Rep S sign ids P x)
    (hPQ : ∀ t ⊆ ids.toFinset, P t ↔ Q t) : Rep S sign ids Q x :=
  { h with fits := fun t ht ↦ (hPQ t ht).symm.trans (h.fits t ht) }

theorem addClause_meets (h : Rep S sign ids P x) {cls : Clause} (hne : cls ≠ [])
    (hover : Over ids cls) :
    Meets (fun x' ↦ Rep S sign ids (fun t ↦ P t ∧ satClause (seedVal t) cls) x' ∧
      x'.map.vars = x.map.vars) fail (x.addClauseToSolver cls) := by
  have hlits : ∀ lit ∈ cls, strip lit ∈ owner ids := hover
  refine (MSU4MaxSATSolver.addClause_meets h.rest hne hlits).bind fun map hmap ↦ ?_
  obtain ⟨hrest, hcl, hopt, hvars, hdb⟩ := hmap
  rw [meets_pure]
  refine ⟨⟨h.ids_eq, hrest, fun hi ↦ ?_, fun hi ↦ ⟨?_, fun v hv hU ↦ ?_⟩,
    fun t ht ↦ ?_⟩, hvars⟩
  · dsimp only
    rw [hopt]
    exact h.opt hi
  · exact hopt.trans (h.fresh hi).1
  · dsimp only at hv ⊢
    rw [hdb] at hv
    rw [hcl, varsOf_append]
    cases varsOf_append.mp hv with
    | inl hv => exact ((h.fresh hi).2 v hv hU).imp_left .inl
    | inr hv => exact .inl (.inr hv)
  · dsimp only
    rw [IsModel, hcl, isModel_addClause, h.fits t ht]

theorem initIfNecessary_meets (hids : IDSet ids) (hsign : IsSign sign) (h : Rep S sign ids P x) :
    Meets (fun x' ↦ Rep S sign ids P x' ∧ x'.mapInited = true ∧
      x'.map.vars = x.map.vars) fail (x.initIfNecessary sign) := by
  unfold initIfNecessary
  cases hi : x.mapInited with
  | true =>
    change Meets _ fail (.ok { x with mapInited := true })
    exact ⟨⟨h.ids_eq, h.rest, fun _ ↦ h.opt hi, nofun, h.fits⟩, rfl, rfl⟩
  | false =>
    obtain ⟨hnil, hfresh⟩ := h.fresh hi
    rw [if_neg Bool.false_ne_true]
    have hfold : Meets (fun map ↦ Rest (owner ids) S map ∧
        map.optimizationSet.Perm (ids.map sign) ∧ map.clauses = x.map.clauses ∧
        map.solver = x.map.solver ∧ map.vars = x.map.vars) fail
        (ids.foldlM (fun map id ↦ map.addForOptimization (sign id)) x.map) := by
      refine foldlM_meets (fun done map ↦ Rest (owner ids) S map ∧
        map.optimizationSet.Perm (done.map sign) ∧ map.clauses = x.map.clauses ∧
        map.solver = x.map.solver ∧ map.vars = x.map.vars) x.map
        ⟨h.rest, by rw [hnil, List.map_nil], rfl, rfl, rfl⟩ ?_
      intro done id rest map hl hmap
      obtain ⟨hrest, hperm, hcl, hsolver, hvars⟩ := hmap
      have hid : id ∈ ids := by rw [← hl]; exact List.mem_append_right _ List.mem_cons_self
      have hU : strip (sign id) ∈ owner ids := by
        rw [strip_sign hsign, hids.strip hid]
        exact .inl hid
      have hnew : sign id ∉ map.optimizationSet := by
        intro hmem
        obtain ⟨b, hb, hbid⟩ := List.mem_map.mp (hperm.mem_iff.mp hmem)
        have hbids : b ∈ ids := by rw [← hl]; exact List.mem_append_left _ hb
        have heq := sign_injOn hids hsign hbids hid (by rw [hbid])
        have hnodup := hids.nodup
        rw [← hl] at hnodup
        exact (List.nodup_append.mp hnodup).2.2 _ hb _ List.mem_cons_self heq
      refine (addForOptimization_meets hrest hU (fun _ hv ↦ hv) (fun _ hv ↦ hv) (fun _ ↦
        ⟨trivial, fun v hv hU ↦ ?_⟩) fun hmem ↦ absurd hmem hnew).imp fun map' hmap' ↦ ?_
      · rw [hcl]
        rw [hsolver] at hv
        exact hfresh v hv hU
      · obtain ⟨hrest', rfl⟩ := hmap'
        refine ⟨hrest', ?_, hcl, hsolver, hvars⟩
        refine (List.perm_orderedInsert _ _ _).trans ?_
        rw [List.map_append]
        exact (hperm.cons _).trans (List.perm_append_singleton _ _).symm
    have hinit : Meets (fun x' ↦ ∃ map, x' = { x with map := map } ∧ Rest (owner ids) S map ∧
        map.optimizationSet.Perm (ids.map sign) ∧ map.clauses = x.map.clauses ∧
        map.vars = x.map.vars) fail (x.initSolver sign) := by
      unfold initSolver
      rw [h.ids_eq]
      refine hfold.bind fun map hmap ↦ ?_
      obtain ⟨hrest, hperm, hcl, -, hvars⟩ := hmap
      exact ⟨map, rfl, hrest, hperm, hcl, hvars⟩
    refine hinit.bind fun x' hx' ↦ ?_
    obtain ⟨map, rfl, hrest, hperm, hcl, hvars⟩ := hx'
    rw [meets_pure]
    refine ⟨⟨h.ids_eq, hrest, fun _ ↦ hperm, nofun, fun t ht ↦ ?_⟩, rfl, hvars⟩
    dsimp only
    rw [IsModel, hcl]
    exact h.fits t ht

theorem extractSeed_meets (hids : IDSet ids) (h : Rep S sign ids P x) {σ : Assignment}
    (hsat : x.map.isSAT = true) (hσ : x.map.IsModel σ)
    (hvals : ∀ id ∈ ids, x.map.getAssignment id = .ok (litVal σ id)) :
    Meets (fun seed ↦ seed.Sublist ids ∧ P seed.toFinset ∧
      ∀ id ∈ ids, (id ∈ seed.toFinset ↔ σ id = true)) fail x.extractSeed := by
  have hfold : Meets (· = ids.filter σ) fail x.extractSeed := by
    unfold extractSeed
    rw [hsat, ensure_true, ok_bind, h.ids_eq]
    refine foldlM_meets (fun done seed ↦ seed = done.filter σ) [] rfl ?_
    intro done id rest seed hl hseed
    have hid : id ∈ ids := by rw [← hl]; exact List.mem_append_right _ List.mem_cons_self
    rw [hids.not_negated hid, ensure_true, ok_bind, hvals id hid, ok_bind, meets_pure,
      List.filter_append, hseed, List.filter_cons, List.filter_nil, hids.litVal hid]
    cases σ id with
    | false => exact (List.append_nil _).symm
    | true => rfl
  refine hfold.imp fun seed hseed ↦ ?_
  have hsub : seed.Sublist ids := hseed ▸ List.filter_sublist
  have ht : seed.toFinset ⊆ ids.toFinset := fun id hid ↦
    List.mem_toFinset.mpr (hsub.subset (List.mem_toFinset.mp hid))
  have hmem : ∀ id ∈ ids, (id ∈ seed.toFinset ↔ σ id = true) := fun id hid ↦ by
    rw [List.mem_toFinset, hseed, List.mem_filter]
    exact ⟨And.right, fun hv ↦ ⟨hid, hv⟩⟩
  refine ⟨hsub, (h.fits _ ht).mpr ?_, hmem⟩
  exact satClauses_seedVal hids h.over List.mem_cons_self ht hσ fun v _ hid ↦ hmem v hid

def Takes (ids : List ℕ) (vm vm' : VariableManager) : Prop :=
  vm.nextID ≤ vm'.nextID ∧ vm'.nextID ≤ vm.nextID + solveIDs ids.length

/-- A solve of the inner solver, for either sign: the values of the IDs are a best seed. -/
theorem search_meets (hids : IDSet ids) (hsign : IsSign sign) (hS : S.Relevant)
    (h : Rep S sign ids P x) (hi : x.mapInited = true)
    (hmany : ∀ e : Failure, e = .narrowed ∨ e = .idsExhausted →
      2 ^ 32 < x.map.vars.nextID + solveIDs ids.length → fail e)
    (hsize : 2 ^ 32 ≤ ids.length → fail .assertion) :
    Meets (fun r ↦ Rep S sign ids P { x with map := r.1 } ∧ Takes ids x.map.vars r.1.vars ∧
      (r.2 = false → ∀ t ⊆ ids.toFinset, ¬ P t) ∧
      (r.2 = true → r.1.isSAT = true ∧ ∃ t ⊆ ids.toFinset, P t ∧
        (∀ id ∈ ids, r.1.getAssignment id = .ok (decide (id ∈ t))) ∧
        ∀ t' ⊆ ids.toFinset, P t' →
          trueCount (seedVal t') (ids.map sign) ≤ trueCount (seedVal t) (ids.map sign)))
      fail (x.map.doSolve o S) := by
  have hperm := h.opt hi
  have hready : x.map.Ready o := (h.rest.mentioned hS (simple_of_perm hids hsign hperm) trivial).ready
  have hlen : x.map.optimizationSet.length = ids.length := by
    rw [hperm.length_eq, List.length_map]
  have hsolve : Meets (Solved (owner ids) S x.map) fail (x.map.doSolve o S) := by
    refine doSolve_meets h.rest hready (fun e he hlt ↦ hmany e he ?_) fun hle ↦ hsize (hlen ▸ hle)
    rw [hlen] at hlt
    exact hlt
  refine hsolve.imp fun p hp ↦ ?_
  obtain ⟨map, sat⟩ := p
  have hright := hp.right
  obtain ⟨hrest, hsame, hnext, hsat, hopt⟩ := hp
  dsimp only at hrest hsame hnext hsat hopt hright ⊢
  have hmodel : ∀ τ, map.IsModel τ ↔ x.map.IsModel τ := fun τ ↦ by
    rw [IsModel, IsModel, hsame.clauses]
  have hx : Rep S sign ids P { x with map := map } := by
    refine ⟨h.ids_eq, hrest, fun _ ↦ ?_, fun hf ↦ ?_, fun t ht ↦ (h.fits t ht).trans (hmodel _).symm⟩
    · dsimp only
      rw [hsame.optimizationSet]
      exact hperm
    · exact absurd (hi.symm.trans hf) Bool.true_eq_false.mp
  have hle : Takes ids x.map.vars map.vars := by
    rw [hlen] at hnext
    exact ⟨hsame.le, hnext⟩
  refine ⟨hx, hle, fun hno t ht hP ↦ ?_, fun hyes ↦ ⟨(hopt hyes).1, ?_⟩⟩
  · have hyes := hsat.mpr ⟨_, (h.fits t ht).mp hP⟩
    exact Bool.false_ne_true (hno.symm.trans hyes)
  · obtain ⟨σ, hσ, hvals, hbest⟩ := hright.2 hyes
    have hmem : ∀ id ∈ ids, (id ∈ ids.toFinset.filter (σ · = true) ↔ σ id = true) := fun id hid ↦ by
      rw [Finset.mem_filter, List.mem_toFinset]
      exact ⟨And.right, fun hv ↦ ⟨hid, hv⟩⟩
    have hP : P (ids.toFinset.filter (σ · = true)) := by
      refine (h.fits _ (Finset.filter_subset _ _)).mpr ?_
      exact satClauses_seedVal hids h.over List.mem_cons_self (Finset.filter_subset _ _) hσ
        fun v _ hid ↦ hmem v hid
    refine ⟨_, Finset.filter_subset _ _, hP, fun id hid ↦ ?_, fun t ht hPt ↦ ?_⟩
    · have hin : sign id ∈ x.map.optimizationSet := hperm.mem_iff.mpr (List.mem_map_of_mem hid)
      have hread : map.getAssignment id = .ok (litVal σ id) := by
        refine hvals id ?_
        cases hsign id with
        | inl hs => exact .inl (hs ▸ hin)
        | inr hs => exact .inr (hs ▸ hin)
      rw [hread, hids.litVal hid]
      exact congrArg Except.ok (Bool.eq_iff_iff.mpr ((hmem id hid).symm.trans decide_eq_true_iff.symm))
    · have hcount : trueCount (seedVal (ids.toFinset.filter (σ · = true))) (ids.map sign) =
          trueCount σ (ids.map sign) := by
        refine trueCount_congr fun l hl ↦ ?_
        obtain ⟨id, hid, rfl⟩ := List.mem_map.mp hl
        rw [strip_sign hsign, hids.strip hid, Bool.eq_iff_iff, seedVal_eq_true]
        exact hmem id hid
      have hle' := hbest _ ((h.fits t ht).mp hPt)
      have hp : ∀ τ, trueCount τ x.map.optimizationSet = trueCount τ (ids.map sign) := fun τ ↦
        hperm.countP_eq _
      rw [hp, hp] at hle'
      rw [hcount]
      exact hle'

theorem find_meets (hids : IDSet ids) (hsign : IsSign sign) (hS : S.Relevant)
    (h : Rep S sign ids P x)
    (hmany : ∀ e : Failure, e = .narrowed ∨ e = .idsExhausted →
      2 ^ 32 < x.map.vars.nextID + solveIDs ids.length → fail e)
    (hsize : 2 ^ 32 ≤ ids.length → fail .assertion) :
    Meets (fun r ↦ Rep S sign ids P r.2 ∧ Takes ids x.map.vars r.2.map.vars ∧
      IsSeed ids P r.1 ∧ ∀ seed, r.1 = some seed → ∀ t ⊆ ids.toFinset, P t →
        trueCount (seedVal t) (ids.map sign) ≤ trueCount (seedVal seed.toFinset) (ids.map sign))
      fail (x.find o S sign) := by
  unfold find
  refine (initIfNecessary_meets hids hsign h).bind fun x₁ hx₁ ↦ ?_
  obtain ⟨h₁, hi, hvars⟩ := hx₁
  rw [← hvars] at hmany
  refine (search_meets hids hsign hS h₁ hi hmany hsize).bind fun p hp ↦ ?_
  obtain ⟨map, sat⟩ := p
  obtain ⟨hx₂, hle, hnone, hsome⟩ := hp
  dsimp only at hx₂ hle hnone hsome ⊢
  rw [hvars] at hle
  cases sat with
  | false => exact ⟨hx₂, hle, hnone rfl, nofun⟩
  | true =>
    rw [if_pos rfl]
    obtain ⟨hsat, t, ht, hP, hvals, hbest⟩ := hsome rfl
    have hread : ∀ id ∈ ids, map.getAssignment id = .ok (litVal (seedVal t) id) := fun id hid ↦ by
      rw [hids.litVal hid]
      exact hvals id hid
    have hmodel : map.IsModel (seedVal t) := (hx₂.fits t ht).mp hP
    refine (extractSeed_meets hids hx₂ hsat hmodel hread).bind fun seed hseed ↦ ?_
    obtain ⟨hsub, hPseed, hmem⟩ := hseed
    have heq : seed.toFinset = t := by
      ext id
      constructor
      · intro hid
        have hin : id ∈ ids := hsub.subset (List.mem_toFinset.mp hid)
        exact seedVal_eq_true.mp ((hmem id hin).mp hid)
      · intro hid
        exact (hmem id (List.mem_toFinset.mp (ht hid))).mpr (seedVal_eq_true.mpr hid)
    refine ⟨hx₂, hle, ⟨hsub, hPseed⟩, fun seed' hseed' ↦ ?_⟩
    cases hseed'
    rw [heq]
    exact hbest

/-- What a search may fail with is allowed: it needs IDs below `2 ^ 32`, and an `unsigned` that
counts the IDs of the map. -/
def Enough (ids : List ℕ) (vm : VariableManager) (fail : Failure → Prop) : Prop :=
  (∀ e : Failure, e = .narrowed ∨ e = .idsExhausted →
    2 ^ 32 < vm.nextID + solveIDs ids.length → fail e) ∧ (2 ^ 32 ≤ ids.length → fail .assertion)

def runIDs (ids : List ℕ) (vm : VariableManager) : ℕ :=
  vm.nextID + (2 ^ ids.length + 1) * solveIDs ids.length

structure RepWithin (S : SAT.Solver) (sign : ℕ → ℕ) (ids : List ℕ) (top n : ℕ) (P : Finset ℕ → Prop)
    (x : MSU4MapSolver) : Prop where
  rep : Rep S sign ids P x
  le : x.map.vars.nextID + n * solveIDs ids.length ≤ top

variable {top n : ℕ}

theorem RepWithin.fewer (h : RepWithin S sign ids top n P x) {m : ℕ} (hle : m ≤ n) :
    RepWithin S sign ids top m P x :=
  ⟨h.rep, (Nat.add_le_add_left (Nat.mul_le_mul_right _ hle) _).trans h.le⟩

theorem enough_of_le {vm : VariableManager} (hle : vm.nextID + (n + 1) * solveIDs ids.length ≤ top) :
    Enough ids vm (TooLarge ids top) := by
  rw [Nat.succ_mul] at hle
  exact ⟨fun _ he hlt ↦ .inl ⟨he, by omega⟩, fun hge ↦ .inr ⟨rfl, hge⟩⟩

theorem Takes.le {vm vm' : VariableManager} (h : Takes ids vm vm')
    (hle : vm.nextID + (n + 1) * solveIDs ids.length ≤ top) : vm'.nextID + n * solveIDs ids.length ≤ top := by
  have htaken := h.2
  rw [Nat.succ_mul] at hle
  omega

theorem checkSeed_rep (hids : IDSet ids) (h : Rep S sign ids P x) (seed : Seed) :
    Rep S sign ids P (x.checkSeed S seed).2 ∧ (x.checkSeed S seed).2.map.vars = x.map.vars ∧
      ((x.checkSeed S seed).1 = true ↔ P (ids.toFinset ∩ seed.toFinset)) := by
  have hcl : (x.map.doCheck S (seedAssumps x.ids seed)).1.solver.clauses = x.map.solver.clauses :=
    SATAdaptor.solve_clauses S _
  refine ⟨⟨h.ids_eq, doCheck_rest h.rest _, h.opt, fun hi ↦ ?_, h.fits⟩, rfl, ?_⟩
  · refine ⟨(h.fresh hi).1, fun v hv hU ↦ (h.fresh hi).2 v ?_ hU⟩
    rw [← hcl]
    exact hv
  · have hlits : ∀ lit ∈ seedAssumps x.ids seed, strip lit ∈ owner ids := by
      intro lit hl
      rw [h.ids_eq] at hl
      obtain ⟨id, hid, rfl⟩ := List.mem_map.mp hl
      split
      · rw [hids.strip hid]
        exact .inl hid
      · rw [strip_negate, hids.strip hid]
        exact .inl hid
    refine (doCheck_eq_true h.rest hlits).trans ?_
    rw [h.ids_eq]
    refine (exists_check_iff hids h.over List.mem_cons_self).trans ?_
    exact (h.fits _ Finset.inter_subset_left).symm

theorem blocks_vars (hids : IDSet ids) {V : MapSolver MSU4MapSolver} (hV : V.ids = MSU4MapSolver.ids)
    (hadd : V.addClauseToSolver = addClauseToSolver)
    (hcheck : V.checkSeed = fun x seed ↦ return x.checkSeed S seed) (vm : VariableManager) :
    V.Blocks ids (fun P x ↦ Rep S sign ids P x ∧ x.map.vars = vm) where
  idSet := hids
  ids_eq h := hV ▸ h.1.ids_eq
  congr h hPQ := ⟨h.1.congr hPQ, h.2⟩
  addClause h hne hover := by
    rw [hadd]
    exact (addClause_meets h.1 hne hover).imp fun _ h' ↦ ⟨h'.1, h'.2.trans h.2⟩
  checkSeed seed h := by
    rw [hcheck]
    obtain ⟨hrep, hvars, hanswer⟩ := checkSeed_rep hids h.1 seed
    exact ⟨⟨hrep, hvars.trans h.2⟩, hanswer⟩

theorem blocks (hids : IDSet ids) {V : MapSolver MSU4MapSolver} (hV : V.ids = MSU4MapSolver.ids)
    (hadd : V.addClauseToSolver = addClauseToSolver)
    (hcheck : V.checkSeed = fun x seed ↦ return x.checkSeed S seed) (n : ℕ) :
    V.Blocks ids (RepWithin S sign ids top n) := by
  have hblocks : ∀ vm, V.Blocks ids fun P x ↦ Rep S sign ids P x ∧ x.map.vars = vm :=
    blocks_vars hids hV hadd hcheck
  refine ⟨hids, fun h ↦ hV ▸ h.rep.ids_eq, fun h hPQ ↦ ⟨h.rep.congr hPQ, h.le⟩, fun h hne hover ↦ ?_,
    fun seed h ↦ ?_⟩
  · exact ((hblocks _).addClause ⟨h.rep, rfl⟩ hne hover).imp fun _ h' ↦ ⟨h'.1, h'.2 ▸ h.le⟩
  · exact ((hblocks _).checkSeed seed ⟨h.rep, rfl⟩).imp fun _ h' ↦ ⟨⟨h'.1.1, h'.1.2 ▸ h.le⟩, h'.2⟩

end MSU4MapSolver

section Counts

variable {ids : List ℕ} {t : Finset ℕ}

theorem trueCount_seedVal (h : IDSet ids) (ht : t ⊆ ids.toFinset) :
    trueCount (seedVal t) ids = t.card := by
  have hfilter : (ids.filter fun id ↦ litVal (seedVal t) id).toFinset = t := by
    ext id
    rw [List.mem_toFinset, List.mem_filter]
    constructor
    · intro hid
      have hv := hid.2
      rw [h.litVal hid.1, seedVal_eq_true] at hv
      exact hv
    · intro hid
      have hmem := List.mem_toFinset.mp (ht hid)
      refine ⟨hmem, ?_⟩
      rw [h.litVal hmem, seedVal_eq_true]
      exact hid
  rw [trueCount, List.countP_eq_length_filter, ← List.toFinset_card_of_nodup (h.nodup.filter _)]
  exact congrArg Finset.card hfilter

theorem IDSet.card_seed (h : IDSet ids) {seed : Seed} (hsub : seed.Sublist ids) :
    seed.toFinset.card = seed.length := List.toFinset_card_of_nodup (h.nodup.sublist hsub)

theorem seed_subset {seed : Seed} (hsub : seed.Sublist ids) : seed.toFinset ⊆ ids.toFinset :=
  fun _ hid ↦ List.mem_toFinset.mpr (hsub.subset (List.mem_toFinset.mp hid))

end Counts

open MSU4MapSolver MSU4MaxSATSolver

variable {ids : List ℕ} {o : MSU4Options} {S : SAT.Solver} {fail : Failure → Prop} {top n : ℕ}

theorem isSign_id : IsSign id := fun _ ↦ .inl rfl

theorem isSign_negate : IsSign negate := fun _ ↦ .inr rfl

namespace MSU4MaximalMapSolver

theorem findMaximalSeed_meets (hids : IDSet ids) (hS : S.Relevant) {P : Finset ℕ → Prop}
    {x : MSU4MapSolver} (h : Rep S id ids P x) (hfail : Enough ids x.map.vars fail) :
    Meets (fun r ↦ Rep S id ids P r.2 ∧ Takes ids x.map.vars r.2.map.vars ∧
      IsMaximalSeed ids P r.1) fail (findMaximalSeed o S x) := by
  refine (find_meets hids isSign_id hS h hfail.1 hfail.2).imp fun r hr ↦ ?_
  obtain ⟨hrep, hle, hseed, hbest⟩ := hr
  refine ⟨hrep, hle, hseed, fun seed heq t ht hP ↦ ?_⟩
  have hcount := hbest seed heq t ht hP
  rw [heq] at hseed
  rw [List.map_id, trueCount_seedVal hids ht, trueCount_seedVal hids (seed_subset hseed.1),
    hids.card_seed hseed.1] at hcount
  exact hcount

theorem findsMaximal (hids : IDSet ids) (hS : S.Relevant) :
    (solver o S).FindsMaximal ids (RepWithin S id ids top) (TooLarge ids top) where
  findMaximalSeed h := (findMaximalSeed_meets hids hS h.rep (enough_of_le h.le)).imp fun _ h' ↦
    ⟨⟨h'.1, h'.2.1.le h.le⟩, h'.2.2⟩

theorem contract (hids : IDSet ids) (hS : S.Relevant) :
    (solver o S).Contract ids (RepWithin S id ids top) (TooLarge ids top) where
  blocks := blocks hids rfl rfl rfl
  fewer hle h := h.fewer hle
  findSeed h := ((findsMaximal hids hS).findMaximalSeed h).imp fun _ h' ↦ ⟨h'.1, h'.2.1⟩

end MSU4MaximalMapSolver

namespace MSU4MinimalMapSolver

theorem findMinimalSeed_meets (hids : IDSet ids) (hS : S.Relevant) {P : Finset ℕ → Prop}
    {x : MSU4MapSolver} (h : Rep S negate ids P x) (hfail : Enough ids x.map.vars fail) :
    Meets (fun r ↦ Rep S negate ids P r.2 ∧ Takes ids x.map.vars r.2.map.vars ∧
      IsMinimalSeed ids P r.1) fail (findMinimalSeed o S x) := by
  refine (find_meets hids isSign_negate hS h hfail.1 hfail.2).imp fun r hr ↦ ?_
  obtain ⟨hrep, hle, hseed, hbest⟩ := hr
  refine ⟨hrep, hle, hseed, fun seed heq t ht hP ↦ ?_⟩
  have hcount := hbest seed heq t ht hP
  rw [heq] at hseed
  have hsum := trueCount_negateVec (seedVal t) ids
  have hsum' := trueCount_negateVec (seedVal seed.toFinset) ids
  rw [trueCount_seedVal hids ht] at hsum
  rw [trueCount_seedVal hids (seed_subset hseed.1), hids.card_seed hseed.1] at hsum'
  unfold negateVec at hsum hsum'
  omega

theorem findsMinimal (hids : IDSet ids) (hS : S.Relevant) :
    (solver o S).FindsMinimal ids (RepWithin S negate ids top) (TooLarge ids top) where
  findMinimalSeed h := (findMinimalSeed_meets hids hS h.rep (enough_of_le h.le)).imp fun _ h' ↦
    ⟨⟨h'.1, h'.2.1.le h.le⟩, h'.2.2⟩

theorem contract (hids : IDSet ids) (hS : S.Relevant) :
    (solver o S).Contract ids (RepWithin S negate ids top) (TooLarge ids top) where
  blocks := blocks hids rfl rfl rfl
  fewer hle h := h.fewer hle
  findSeed h := ((findsMinimal hids hS).findMinimalSeed h).imp fun _ h' ↦ ⟨h'.1, h'.2.1⟩

end MSU4MinimalMapSolver

namespace MSU4ArbitraryMapSolver

variable {P : Finset ℕ → Prop} {x : MSU4ArbitraryMapSolver}

structure Rep (S : SAT.Solver) (ids : List ℕ) (P : Finset ℕ → Prop) (x : MSU4ArbitraryMapSolver) :
    Prop where
  min : MSU4MapSolver.Rep S negate ids P x.min
  max : MSU4MapSolver.Rep S id ids P x.max
  vars : x.min.map.vars = x.max.map.vars

theorem Rep.new {vm : VariableManager} (hids : IDSet ids) (hvm : vm.Inv)
    (hlt : ∀ id ∈ ids, id < vm.nextID) : Rep S ids (fun _ ↦ True) (new vm ids) :=
  ⟨.new hids hvm hlt, .new hids hvm hlt, rfl⟩

theorem addClause_meets (h : Rep S ids P x) {cls : Clause} (hne : cls ≠ []) (hover : Over ids cls) :
    Meets (fun x' ↦ Rep S ids (fun t ↦ P t ∧ satClause (seedVal t) cls) x' ∧
      x'.max.map.vars = x.max.map.vars) fail (x.addClauseToSolver cls) := by
  refine (MSU4MapSolver.addClause_meets h.min hne hover).bind fun min hmin ↦ ?_
  refine (MSU4MapSolver.addClause_meets h.max hne hover).bind fun max hmax ↦ ?_
  exact ⟨⟨hmin.1, hmax.1, (hmin.2.trans h.vars).trans hmax.2.symm⟩, hmax.2⟩

theorem findMinimalSeed_meets (hids : IDSet ids) (hS : S.Relevant) (h : Rep S ids P x)
    (hfail : Enough ids x.max.map.vars fail) :
    Meets (fun r ↦ Rep S ids P r.2 ∧ Takes ids x.max.map.vars r.2.max.map.vars ∧
      IsMinimalSeed ids P r.1) fail (findMinimalSeed o S x) := by
  refine (MSU4MinimalMapSolver.findMinimalSeed_meets hids hS h.min (h.vars ▸ hfail)).bind fun r hr ↦ ?_
  obtain ⟨seed, min⟩ := r
  obtain ⟨hmin, htakes, hseed⟩ := hr
  rw [h.vars] at htakes
  exact ⟨⟨hmin, h.max.withVars hmin.rest.shape.vars htakes.1, rfl⟩, htakes, hseed⟩

theorem findMaximalSeed_meets (hids : IDSet ids) (hS : S.Relevant) (h : Rep S ids P x)
    (hfail : Enough ids x.max.map.vars fail) :
    Meets (fun r ↦ Rep S ids P r.2 ∧ Takes ids x.max.map.vars r.2.max.map.vars ∧
      IsMaximalSeed ids P r.1) fail (findMaximalSeed o S x) := by
  refine (MSU4MaximalMapSolver.findMaximalSeed_meets hids hS h.max hfail).bind fun r hr ↦ ?_
  obtain ⟨seed, max⟩ := r
  obtain ⟨hmax, htakes, hseed⟩ := hr
  exact ⟨⟨h.min.withVars hmax.rest.shape.vars (h.vars ▸ htakes.1), hmax, rfl⟩, htakes, hseed⟩

theorem checkSeed_rep (hids : IDSet ids) (h : Rep S ids P x) (seed : Seed) :
    Rep S ids P (x.checkSeed S seed).2 ∧ (x.checkSeed S seed).2.max.map.vars = x.max.map.vars ∧
      ((x.checkSeed S seed).1 = true ↔ P (ids.toFinset ∩ seed.toFinset)) := by
  obtain ⟨hmax, hvars, hanswer⟩ := MSU4MapSolver.checkSeed_rep hids h.max seed
  exact ⟨⟨h.min, hmax, h.vars.trans hvars.symm⟩, hvars, hanswer⟩

structure RepWithin (S : SAT.Solver) (ids : List ℕ) (top n : ℕ) (P : Finset ℕ → Prop)
    (x : MSU4ArbitraryMapSolver) : Prop where
  rep : Rep S ids P x
  le : x.max.map.vars.nextID + n * solveIDs ids.length ≤ top

theorem RepWithin.fewer (h : RepWithin S ids top n P x) {m : ℕ} (hle : m ≤ n) :
    RepWithin S ids top m P x :=
  ⟨h.rep, (Nat.add_le_add_left (Nat.mul_le_mul_right _ hle) _).trans h.le⟩

theorem blocks (hids : IDSet ids) (n : ℕ) : (solver o S).Blocks ids (RepWithin S ids top n) where
  idSet := hids
  ids_eq h := h.rep.max.ids_eq
  congr h hPQ := ⟨⟨h.rep.min.congr hPQ, h.rep.max.congr hPQ, h.rep.vars⟩, h.le⟩
  addClause h hne hover := (addClause_meets h.rep hne hover).imp fun _ h' ↦ ⟨h'.1, h'.2 ▸ h.le⟩
  checkSeed seed h := by
    obtain ⟨hrep, hvars, hanswer⟩ := checkSeed_rep hids h.rep seed
    exact ⟨⟨hrep, hvars ▸ h.le⟩, hanswer⟩

theorem findsMinimal (hids : IDSet ids) (hS : S.Relevant) :
    (solver o S).FindsMinimal ids (RepWithin S ids top) (TooLarge ids top) where
  findMinimalSeed h := (findMinimalSeed_meets hids hS h.rep (enough_of_le h.le)).imp fun _ h' ↦
    ⟨⟨h'.1, h'.2.1.le h.le⟩, h'.2.2⟩

theorem findsMaximal (hids : IDSet ids) (hS : S.Relevant) :
    (solver o S).FindsMaximal ids (RepWithin S ids top) (TooLarge ids top) where
  findMaximalSeed h := (findMaximalSeed_meets hids hS h.rep (enough_of_le h.le)).imp fun _ h' ↦
    ⟨⟨h'.1, h'.2.1.le h.le⟩, h'.2.2⟩

theorem contract (hids : IDSet ids) (hS : S.Relevant) :
    (solver o S).Contract ids (RepWithin S ids top) (TooLarge ids top) where
  blocks := blocks hids
  fewer hle h := h.fewer hle
  findSeed h := ((findsMaximal hids hS).findMaximalSeed h).imp fun _ h' ↦ ⟨h'.1, h'.2.1⟩

end MSU4ArbitraryMapSolver

end PME
