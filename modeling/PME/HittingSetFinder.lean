import PME.SeedSearch
import PME.IC3.LemmaMoves
import PME.Lib.HittingSets

namespace PME

open Outcome IC3 HittingSets Exploration MSU4MaxSATSolver

/-- The elements of an `unordered_set` come in an order of its own, which every insertion may
change. -/
structure HashOrder where
  insert : List ℕ → ℕ → List ℕ
  perm : ∀ elements lit, (insert elements lit).Perm (lit :: elements)

structure HittingSetFinder where
  known : List ℕ
  sets : List (List ℕ)
  blocked : List (List ℕ)
  solver : MSU4MaxSATSolver

namespace HittingSetFinder

def new (vm : VariableManager) : HittingSetFinder := ⟨[], [], [], .new vm⟩

/-- The loop of `checkSubsumption`: it deletes supersets of `s` until it finds a subset. -/
def subsumptionLoop (s : List ℕ) : List (List ℕ) → Result (List (List ℕ) × Bool)
  | [] => return ([], true)
  | t :: sets => do
    ensure (isSorted t)
    if ← subsumes s t then subsumptionLoop s sets
    else if ← subsumes t s then return (t :: sets, false)
    else
      let (sets, add) ← subsumptionLoop s sets
      return (t :: sets, add)

def checkSubsumption (x : HittingSetFinder) (s : List ℕ) : Result (HittingSetFinder × Bool) := do
  ensure (isSorted s)
  let (sets, add) ← subsumptionLoop s x.sets
  return ({ x with sets := sets }, add)

def addVar (order : HashOrder) (x : HittingSetFinder) (lit : ℕ) : Result HittingSetFinder :=
  if x.known.contains lit then return x else do
  let solver ← x.solver.addForOptimization (negate lit)
  return { x with known := order.insert x.known lit, solver := solver }

def addSet (order : HashOrder) (x : HittingSetFinder) (s : List ℕ) : Result HittingSetFinder := do
  let (x, add) ← x.checkSubsumption s
  if add then
    let copy := s.insertionSort (· ≤ ·)
    let x ← copy.foldlM (fun x lit ↦ do
      ensure (!isNegated lit)
      x.addVar order lit) x
    let solver ← x.solver.addClause copy
    return { x with solver := solver, sets := x.sets ++ [copy] }
  else return x

def solve (o : MSU4Options) (S : SAT.Solver) (x : HittingSetFinder) :
    Result (List ℕ × HittingSetFinder) := do
  let (solver, sat) ← x.solver.doSolve o S
  let x := { x with solver := solver }
  if sat then
    let soln ← x.known.foldlM (fun soln lit ↦ do
      let value ← x.solver.getAssignment lit
      return if value then soln ++ [lit] else soln) []
    return (soln, x)
  else return ([], x)

def blockSolution (x : HittingSetFinder) (soln : List ℕ) : Result HittingSetFinder := do
  let solver ← x.solver.addClause (negateVec soln)
  return { x with blocked := x.blocked ++ [soln], solver := solver }

def renew (x : HittingSetFinder) : Result HittingSetFinder := do
  let solver ← x.known.foldlM (fun solver lit ↦ solver.addForOptimization (negate lit))
    (MSU4MaxSATSolver.new x.solver.vars)
  let solver ← x.sets.foldlM (fun solver s ↦ solver.addClause s) solver
  let solver ← x.blocked.foldlM (fun solver soln ↦ solver.addClause (negateVec soln)) solver
  return { x with solver := solver }

section Subsumption

variable {s : List ℕ} {fail : Failure → Prop}

structure Checked (s : List ℕ) (sets left : List (List ℕ)) (add : Bool) : Prop where
  subset : left ⊆ sets
  dropped : ∀ t ∈ sets, t ∈ left ∨ s ⊆ t
  ignored : add = false → ∃ t ∈ left, t ⊆ s

theorem subsumptionLoop_meets (hs : isSorted s = true) {sets : List (List ℕ)}
    (hsets : ∀ t ∈ sets, isSorted t = true) :
    Meets (fun r ↦ Checked s sets r.1 r.2) fail (subsumptionLoop s sets) := by
  induction sets with
  | nil =>
    exact ⟨List.Subset.refl _, fun _ ht ↦ absurd ht List.not_mem_nil, nofun⟩
  | cons t sets ih =>
    obtain ⟨ht, hrest⟩ := List.forall_mem_cons.mp hsets
    unfold subsumptionLoop
    rw [ht, ensure_true, ok_bind, subsumes_eq hs ht, ok_bind]
    by_cases hst : covers s t = true
    · rw [if_pos hst]
      refine (ih hrest).imp fun r hr ↦ ⟨List.subset_cons_of_subset _ hr.subset, ?_, hr.ignored⟩
      exact List.forall_mem_cons.mpr ⟨.inr (subset_of_covers hst).1, hr.dropped⟩
    · rw [if_neg hst, subsumes_eq ht hs, ok_bind]
      by_cases hts : covers t s = true
      · rw [if_pos hts, meets_pure]
        refine ⟨List.Subset.refl _, fun _ hmem ↦ .inl hmem, fun _ ↦ ?_⟩
        exact ⟨t, List.mem_cons_self, (subset_of_covers hts).1⟩
      · rw [if_neg hts]
        refine (ih hrest).bind fun r hr ↦ ?_
        obtain ⟨left, add⟩ := r
        refine ⟨List.cons_subset_cons _ hr.subset, ?_, fun hadd ↦ ?_⟩
        · refine List.forall_mem_cons.mpr ⟨.inl List.mem_cons_self, fun u hu ↦ ?_⟩
          exact (hr.dropped u hu).imp_left (List.mem_cons_of_mem t)
        · obtain ⟨u, hu, hus⟩ := hr.ignored hadd
          exact ⟨u, List.mem_cons_of_mem t hu, hus⟩

end Subsumption

def owner (ids : Set ℕ) : Callers := ⟨insert idFalse ids, True⟩

structure Encodes (S : SAT.Solver) (ids : Set ℕ) (known : List ℕ) (sets blocked : List (Finset ℕ))
    (s : MSU4MaxSATSolver) : Prop where
  idSet : IDSet known
  mem : ∀ id ∈ known, id ∈ ids
  rest : Rest (owner ids) S s
  opt : s.optimizationSet.Perm (known.map negate)
  hard : ∀ v ∈ varsOf s.clauses, v ∈ known
  fits : ∀ t, idFalse ∉ t → (s.IsModel (seedVal t) ↔ Admissible sets blocked t)

section Encoding

variable {S : SAT.Solver} {ids : Set ℕ} {known : List ℕ} {sets blocked : List (Finset ℕ)}
  {s s' : MSU4MaxSATSolver} {fail : Failure → Prop} {o : MSU4Options}

theorem seedVal_idFalse {t : Finset ℕ} (ht : idFalse ∉ t) : seedVal t idFalse = false :=
  decide_eq_false ht

theorem satClause_set {t : Finset ℕ} (h : IDSet known) {cls : List ℕ} (hsub : cls ⊆ known) :
    satClause (seedVal t) cls ↔ ∃ a ∈ cls.toFinset, a ∈ t := by
  refine exists_congr fun lit ↦ ?_
  rw [List.mem_toFinset]
  refine and_congr_right fun hl ↦ ?_
  rw [h.litVal (hsub hl), seedVal_eq_true]

theorem Encodes.new {vm : VariableManager} (hvm : vm.Inv) (hconst : idFalse < vm.nextID)
    (hids : ∀ id ∈ ids, id < vm.nextID) : Encodes S ids [] [] [] (.new vm) := by
  refine ⟨⟨List.nodup_nil, nofun, nofun⟩, nofun, new_rest hvm (Set.mem_insert _ _) fun v hv ↦ ?_,
    List.Perm.refl [], fun v hv ↦ ?_, fun t ht ↦ ⟨fun _ ↦ ⟨nofun, nofun⟩, fun _ ↦ ?_⟩⟩
  · cases hv with
    | inl hv => exact hv ▸ hconst
    | inr hv => exact hids v hv
  · obtain ⟨cls, hc, -⟩ := hv
    exact absurd hc List.not_mem_nil
  · refine (satClauses_cons _ _).mpr ⟨(satClause_cons _ _).mpr (.inl ?_), satClauses_nil⟩
    rw [litVal_idTrue, seedVal_idFalse ht]
    rfl

theorem Encodes.perm {known' : List ℕ} (h : Encodes S ids known sets blocked s)
    (hp : known'.Perm known) : Encodes S ids known' sets blocked s where
  idSet := ⟨hp.nodup_iff.mpr h.idSet.nodup, fun id hid ↦ h.idSet.even id (hp.mem_iff.mp hid),
    fun id hid ↦ h.idSet.ge id (hp.mem_iff.mp hid)⟩
  mem id hid := h.mem id (hp.mem_iff.mp hid)
  rest := h.rest
  opt := h.opt.trans (hp.map negate).symm
  hard v hv := hp.mem_iff.mpr (h.hard v hv)
  fits := h.fits

theorem Encodes.congr {sets' blocked' : List (Finset ℕ)} (h : Encodes S ids known sets blocked s)
    (hiff : ∀ t, Admissible sets blocked t ↔ Admissible sets' blocked' t) :
    Encodes S ids known sets' blocked' s :=
  { h with fits := fun t ht ↦ (h.fits t ht).trans (hiff t) }

theorem Encodes.simple (h : Encodes S ids known sets blocked s) : s.Simple :=
  MSU4MapSolver.simple_of_perm h.idSet isSign_negate h.opt

theorem Encodes.mentioned (hS : S.Relevant) (h : Encodes S ids known sets blocked s) :
    s.Mentioned := h.rest.mentioned hS h.simple trivial

/-- An ID that becomes known: the solver that has seen cores may go on, as none of its clauses
names the ID. -/
theorem Encodes.addVar (hS : S.Relevant) (h : Encodes S ids known sets blocked s) {lit : ℕ}
    (heven : lit % 2 = 0) (hge : minId ≤ lit) (hids : lit ∈ ids) (hnew : lit ∉ known) :
    Meets (Encodes S ids (lit :: known) sets blocked) fail (s.addForOptimization (negate lit)) := by
  have hset : IDSet (lit :: known) := ⟨List.nodup_cons.mpr ⟨hnew, h.idSet.nodup⟩,
    List.forall_mem_cons.mpr ⟨heven, h.idSet.even⟩, List.forall_mem_cons.mpr ⟨hge, h.idSet.ge⟩⟩
  have hU : strip (negate lit) ∈ owner ids := by
    rw [strip_negate, strip_of_even heven]
    exact Set.mem_insert_of_mem _ hids
  have hmem : negate lit ∉ s.optimizationSet := by
    intro hmem
    obtain ⟨id, hid, heq⟩ := List.mem_map.mp (h.opt.mem_iff.mp hmem)
    exact hnew (negate_injective heq ▸ hid)
  refine (addForOptimization_meets h.rest hU (fun _ hv ↦ hv) (fun _ hv ↦ hv)
    (fun _ ↦ ⟨trivial, fun v hv hUv ↦ ?_⟩) fun hin ↦ absurd hin hmem).imp fun s' hs' ↦ ?_
  · obtain hv | hv | hv := h.rest.shape.scope trivial v hv hUv
    · exact .inl hv
    · exact .inr hv
    · obtain ⟨l, hl, rfl⟩ := hv
      exact h.mentioned hS l hl
  · obtain ⟨hrest, rfl⟩ := hs'
    refine ⟨hset, List.forall_mem_cons.mpr ⟨hids, h.mem⟩, hrest, ?_,
      fun v hv ↦ List.mem_cons_of_mem _ (h.hard v hv), h.fits⟩
    exact (List.perm_orderedInsert _ _ _).trans (h.opt.cons (negate lit))

theorem Encodes.addClause (h : Encodes S ids known sets blocked s) {cls : Clause} (hne : cls ≠ [])
    (hover : ∀ lit ∈ cls, strip lit ∈ known) {sets' blocked' : List (Finset ℕ)}
    (hfits : ∀ t, Admissible sets blocked t ∧ satClause (seedVal t) cls ↔
      Admissible sets' blocked' t) :
    Meets (Encodes S ids known sets' blocked') fail (s.addClause cls) := by
  have hU : ∀ lit ∈ cls, strip lit ∈ owner ids := fun lit hl ↦
    Set.mem_insert_of_mem _ (h.mem _ (hover lit hl))
  refine (addClause_meets h.rest hne hU).imp fun s' hs' ↦ ?_
  obtain ⟨hrest, hcl, hopt, -, -⟩ := hs'
  refine ⟨h.idSet, h.mem, hrest, hopt ▸ h.opt, fun v hv ↦ ?_, fun t ht ↦ ?_⟩
  · rw [hcl] at hv
    cases varsOf_append.mp hv with
    | inl hv => exact h.hard v hv
    | inr hv =>
      obtain ⟨c, hc, lit, hl, rfl⟩ := hv
      exact hover lit (List.mem_singleton.mp hc ▸ hl)
  · rw [IsModel, hcl, isModel_addClause, h.fits t ht]
    exact hfits t

theorem Encodes.addSet (h : Encodes S ids known sets blocked s) {set : List ℕ} (hne : set ≠ [])
    (hsub : set ⊆ known) :
    Meets (Encodes S ids known (sets ++ [set.toFinset]) blocked) fail (s.addClause set) := by
  refine h.addClause hne (fun lit hl ↦ ?_) fun t ↦ ?_
  · rw [h.idSet.strip (hsub hl)]
    exact hsub hl
  · rw [satClause_set h.idSet hsub, Admissible, Admissible, hits_snoc, and_right_comm]

theorem Encodes.block (h : Encodes S ids known sets blocked s) {soln : List ℕ} (hne : soln ≠ [])
    (hsub : soln ⊆ known) :
    Meets (Encodes S ids known sets (blocked ++ [soln.toFinset])) fail
      (s.addClause (negateVec soln)) := by
  have hcls : negateVec soln ≠ [] := mt List.map_eq_nil_iff.mp hne
  refine h.addClause hcls (fun lit hl ↦ ?_) fun t ↦ ?_
  · obtain ⟨id, hid, rfl⟩ := List.mem_map.mp hl
    rw [strip_negate, h.idSet.strip (hsub hid)]
    exact hsub hid
  · rw [satClause_upClause h.idSet hsub, Admissible, Admissible, unblocked_snoc, and_assoc]

theorem Encodes.solve (hS : S.Relevant) (h : Encodes S ids known sets blocked s)
    (hinter : ∀ t, Admissible sets blocked t → Admissible sets blocked (t ∩ known.toFinset)) :
    Meets (fun r ↦ Encodes S ids known sets blocked r.1 ∧
      (r.2 = false → ∀ t, ¬ Admissible sets blocked t) ∧
      (r.2 = true → ∃ t ⊆ known.toFinset, IsMinimum (Admissible sets blocked) t ∧
        ∀ id ∈ known, r.1.getAssignment id = .ok (decide (id ∈ t)))) s.TooLarge (s.doSolve o S) := by
  have hsub : ∀ t : Finset ℕ, idFalse ∉ t ∩ known.toFinset := fun t ht ↦
    h.idSet.const (List.mem_toFinset.mp (Finset.mem_inter.mp ht).2)
  have hready : s.Ready o := (h.mentioned hS).ready
  refine (h.rest.solve hready).imp fun r hr ↦ ?_
  obtain ⟨s', sat⟩ := r
  have hright := hr.right
  obtain ⟨hrest, hsame, -, hsat, -⟩ := hr
  dsimp only at hrest hsame hsat hright ⊢
  refine ⟨⟨h.idSet, h.mem, hrest, hsame.optimizationSet ▸ h.opt, hsame.clauses ▸ h.hard,
    fun t ht ↦ ?_⟩, fun hno t ht ↦ ?_, fun hyes ↦ ?_⟩
  · rw [IsModel, hsame.clauses]
    exact h.fits t ht
  · have hyes := hsat.mpr ⟨_, (h.fits _ (hsub t)).mpr (hinter t ht)⟩
    exact Bool.false_ne_true (hno.symm.trans hyes)
  · obtain ⟨σ, hσ, hvals, hbest⟩ := hright.2 hyes
    have hmem : ∀ id ∈ known, (id ∈ known.toFinset.filter (σ · = true) ↔ σ id = true) := by
      intro id hid
      rw [Finset.mem_filter, List.mem_toFinset]
      exact ⟨And.right, fun hv ↦ ⟨hid, hv⟩⟩
    have hfilter : known.toFinset.filter (σ · = true) ⊆ known.toFinset := Finset.filter_subset _ _
    have hover : ∀ v ∈ varsOf ([idTrue] :: s.clauses), v ∈ known ∨ v = idFalse := by
      intro v hv
      obtain ⟨cls, hc, lit, hl, rfl⟩ := hv
      cases List.mem_cons.mp hc with
      | inl hc =>
        rw [hc, List.mem_singleton] at hl
        exact .inr (hl ▸ strip_idTrue)
      | inr hc => exact .inl (h.hard _ (mem_varsOf hc hl))
    have hmodel : s.IsModel (seedVal (known.toFinset.filter (σ · = true))) :=
      satClauses_seedVal h.idSet hover List.mem_cons_self hfilter hσ fun v _ hid ↦ hmem v hid
    have hcount : trueCount (seedVal (known.toFinset.filter (σ · = true))) known =
        trueCount σ known := by
      refine trueCount_congr fun id hid ↦ ?_
      rw [h.idSet.strip hid, Bool.eq_iff_iff, seedVal_eq_true]
      exact hmem id hid
    have hfalse : idFalse ∉ known.toFinset.filter (σ · = true) := fun hin ↦
      h.idSet.const (List.mem_toFinset.mp (hfilter hin))
    refine ⟨_, hfilter, ⟨(h.fits _ hfalse).mp hmodel, fun u hu ↦ ?_⟩, fun id hid ↦ ?_⟩
    · have hle := hbest _ ((h.fits _ (hsub u)).mpr (hinter u hu))
      have hp : ∀ τ, trueCount τ s.optimizationSet = trueCount τ (negateVec known) := fun τ ↦
        h.opt.countP_eq _
      have hσsum := trueCount_negateVec σ known
      have husum := trueCount_negateVec (seedVal (u ∩ known.toFinset)) known
      rw [← hcount, trueCount_seedVal h.idSet hfilter] at hσsum
      rw [trueCount_seedVal h.idSet Finset.inter_subset_right] at husum
      rw [hp, hp] at hle
      have hcard : (u ∩ known.toFinset).card ≤ u.card := Finset.card_le_card Finset.inter_subset_left
      omega
    · have hin : negate id ∈ s.optimizationSet := h.opt.mem_iff.mpr (List.mem_map_of_mem hid)
      rw [hvals id (.inr hin), h.idSet.litVal hid]
      exact congrArg Except.ok
        (Bool.eq_iff_iff.mpr ((hmem id hid).symm.trans decide_eq_true_iff.symm))

theorem Encodes.withVars (h : Encodes S ids known sets blocked s) {vm : VariableManager} {id : ℕ}
    (hvm : vm.Inv) (hid : id = s.vars.nextID) (hnext : vm.nextID = s.vars.nextID + 2) :
    Encodes S (insert id ids) known sets blocked { s with vars := vm } where
  idSet := h.idSet
  mem v hv := Set.mem_insert_of_mem _ (h.mem v hv)
  rest := by
    refine h.rest.withVars hvm (by omega) (fun v hv ↦ ?_) (fun v hv ↦ ?_) fun _ ↦ trivial
    · exact hv.imp_right (Set.mem_insert_of_mem id)
    · obtain hv | hv | hv := hv
      · exact .inl (.inl hv)
      · exact .inr (by omega)
      · exact .inl (.inr hv)
  opt := h.opt
  hard := h.hard
  fits := h.fits

end Encoding

/-- After these sets have been added and these solutions blocked: what is left of the sets does
for all of them. -/
structure Rep (S : SAT.Solver) (ids : Set ℕ) (sets blocked : List (Finset ℕ))
    (x : HittingSetFinder) : Prop where
  encodes : Encodes S ids x.known sets blocked x.solver
  proper : ∀ s ∈ x.sets, isSorted s = true ∧ s ≠ [] ∧ s ⊆ x.known
  reduced : Reduced sets (x.sets.map List.toFinset)
  blocks : ∀ soln ∈ x.blocked, soln ≠ [] ∧ soln ⊆ x.known
  blocked_eq : x.blocked.map List.toFinset = blocked

section Operations

variable {S : SAT.Solver} {ids : Set ℕ} {sets blocked : List (Finset ℕ)} {x : HittingSetFinder}
  {fail : Failure → Prop} {o : MSU4Options} {order : HashOrder} {s soln : List ℕ}

theorem toFinset_subset {a b : List ℕ} (h : a ⊆ b) : a.toFinset ⊆ b.toFinset := fun _ hid ↦
  List.mem_toFinset.mpr (h (List.mem_toFinset.mp hid))

theorem Rep.inter (h : Rep S ids sets blocked x) {t : Finset ℕ} (ht : Admissible sets blocked t) :
    Admissible sets blocked (t ∩ x.known.toFinset) := by
  rw [h.reduced.admissible_iff] at ht ⊢
  refine ht.inter fun u hu ↦ ?_
  obtain ⟨s, hs, rfl⟩ := List.mem_map.mp hu
  exact toFinset_subset (h.proper s hs).2.2

theorem addVars_meets (hS : S.Relevant) (h : Encodes S ids x.known sets blocked x.solver)
    (hs : ∀ lit ∈ s, isNegated lit = false ∧ minId ≤ lit ∧ lit ∈ ids) :
    Meets (fun x' ↦ Encodes S ids x'.known sets blocked x'.solver ∧ x.known ⊆ x'.known ∧
        s ⊆ x'.known ∧ x'.sets = x.sets ∧ x'.blocked = x.blocked) fail
      (s.foldlM (fun x lit ↦ do
        ensure (!isNegated lit)
        x.addVar order lit) x) := by
  refine foldlM_meets (fun done x' ↦ Encodes S ids x'.known sets blocked x'.solver ∧
    x.known ⊆ x'.known ∧ done ⊆ x'.known ∧ x'.sets = x.sets ∧ x'.blocked = x.blocked) x
    ⟨h, List.Subset.refl _, List.nil_subset _, rfl, rfl⟩ ?_
  intro done lit rest x' hl hx'
  obtain ⟨henc, hknown, hdone, hsets, hblocked⟩ := hx'
  obtain ⟨hpos, hge, hid⟩ := hs lit (by rw [← hl]; exact List.mem_append_right _ List.mem_cons_self)
  rw [hpos, Bool.not_false, ensure_true, ok_bind]
  unfold addVar
  by_cases hmem : lit ∈ x'.known
  · rw [if_pos (List.contains_iff_mem.mpr hmem), meets_pure]
    refine ⟨henc, hknown, List.append_subset.mpr ⟨hdone, ?_⟩, hsets, hblocked⟩
    exact List.cons_subset.mpr ⟨hmem, List.nil_subset _⟩
  · rw [if_neg (mt List.contains_iff_mem.mp hmem)]
    have heven := (isNegated_eq_false lit).mp hpos
    refine (henc.addVar hS heven hge hid hmem).bind fun solver hsolver ↦ ?_
    have hperm := order.perm x'.known lit
    have hsub : x'.known ⊆ order.insert x'.known lit := fun id hin ↦
      hperm.mem_iff.mpr (List.mem_cons_of_mem lit hin)
    have hlit : lit ∈ order.insert x'.known lit := hperm.mem_iff.mpr List.mem_cons_self
    refine ⟨hsolver.perm hperm, List.Subset.trans hknown hsub, ?_, hsets, hblocked⟩
    exact List.append_subset.mpr ⟨List.Subset.trans hdone hsub,
      List.cons_subset.mpr ⟨hlit, List.nil_subset _⟩⟩

theorem checkSubsumption_meets (hs : isSorted s = true) (h : Rep S ids sets blocked x) :
    Meets (fun r ↦ ∃ left, r.1 = { x with sets := left } ∧ Checked s x.sets left r.2) fail
      (x.checkSubsumption s) := by
  unfold checkSubsumption
  rw [hs, ensure_true, ok_bind]
  refine (subsumptionLoop_meets hs fun t ht ↦ (h.proper t ht).1).bind fun r hr ↦ ?_
  exact ⟨r.1, rfl, hr⟩

/-- Whether the set is taken or ignored, the finder then stands for one set more. -/
theorem addSet_meets (hS : S.Relevant) (h : Rep S ids sets blocked x) (hsorted : isSorted s = true)
    (hne : s ≠ []) (hs : ∀ lit ∈ s, isNegated lit = false ∧ minId ≤ lit ∧ lit ∈ ids) :
    Meets (Rep S ids (sets ++ [s.toFinset]) blocked) fail (x.addSet order s) := by
  unfold addSet
  refine (checkSubsumption_meets hsorted h).bind fun r hr ↦ ?_
  obtain ⟨x', add⟩ := r
  obtain ⟨left, rfl, hleft⟩ := hr
  have hsub : left.map List.toFinset ⊆ x.sets.map List.toFinset := List.map_subset _ hleft.subset
  have hdrop : ∀ t ∈ x.sets.map List.toFinset, t ∈ left.map List.toFinset ∨ s.toFinset ⊆ t := by
    intro t ht
    obtain ⟨t', ht', rfl⟩ := List.mem_map.mp ht
    exact (hleft.dropped t' ht').imp List.mem_map_of_mem toFinset_subset
  have hcopy : s.insertionSort (· ≤ ·) = s := (of_decide_eq_true hsorted).insertionSort_eq
  dsimp only
  rw [hcopy]
  cases add with
  | false =>
    obtain ⟨t, ht, hts⟩ := hleft.ignored rfl
    have hreduced : Reduced (sets ++ [s.toFinset]) (left.map List.toFinset) :=
      h.reduced.ignore hsub hdrop ⟨_, List.mem_map_of_mem ht, toFinset_subset hts⟩
    rw [if_neg Bool.false_ne_true, meets_pure]
    refine ⟨h.encodes.congr fun u ↦ ?_, fun t ht ↦ h.proper t (hleft.subset ht), hreduced, h.blocks,
      h.blocked_eq⟩
    refine and_congr_left fun _ ↦ ?_
    rw [hits_snoc]
    refine ⟨fun hu ↦ ⟨hu, ?_⟩, And.left⟩
    obtain ⟨a, ha, hau⟩ := h.reduced.hits_iff.mp hu _ (List.mem_map_of_mem (hleft.subset ht))
    exact ⟨a, toFinset_subset hts ha, hau⟩
  | true =>
    rw [if_pos rfl]
    have hx : Encodes S ids x.known sets blocked x.solver := h.encodes
    refine (addVars_meets (x := { x with sets := left }) hS hx hs).bind fun x' hx' ↦ ?_
    obtain ⟨henc, hknown, hmem, hsets, hblocked⟩ := hx'
    dsimp only at hknown hsets hblocked
    refine (henc.addSet hne hmem).bind fun solver hsolver ↦ ?_
    rw [meets_pure, hsets]
    refine ⟨hsolver, ?_, ?_, ?_, ?_⟩
    · refine List.forall_mem_append.mpr ⟨fun t ht ↦ ?_,
        List.forall_mem_singleton.mpr ⟨hsorted, hne, hmem⟩⟩
      obtain ⟨htsorted, htne, htsub⟩ := h.proper t (hleft.subset ht)
      exact ⟨htsorted, htne, List.Subset.trans htsub hknown⟩
    · rw [List.map_append]
      exact h.reduced.insert hsub hdrop
    · dsimp only
      rw [hblocked]
      intro soln hsoln
      exact ⟨(h.blocks soln hsoln).1, List.Subset.trans (h.blocks soln hsoln).2 hknown⟩
    · dsimp only
      rw [hblocked]
      exact h.blocked_eq

theorem blockSolution_meets (h : Rep S ids sets blocked x) (hne : soln ≠ []) (hsub : soln ⊆ x.known) :
    Meets (Rep S ids sets (blocked ++ [soln.toFinset])) fail (x.blockSolution soln) := by
  unfold blockSolution
  refine (h.encodes.block hne hsub).bind fun solver hsolver ↦ ?_
  refine ⟨hsolver, h.proper, h.reduced, ?_, ?_⟩
  · exact List.forall_mem_append.mpr ⟨h.blocks, List.forall_mem_singleton.mpr ⟨hne, hsub⟩⟩
  · rw [List.map_append, h.blocked_eq]
    rfl

/-- A solver that is built anew from what is left stands for all sets added. -/
theorem renew_meets (hS : S.Relevant) (h : Rep S ids sets blocked x) :
    Meets (Rep S ids sets blocked) fail x.renew := by
  have hset := h.encodes.idSet
  have hshape := h.encodes.rest.shape
  have hknown : Meets (Encodes S ids x.known [] []) fail
      (x.known.foldlM (fun solver lit ↦ solver.addForOptimization (negate lit))
        (MSU4MaxSATSolver.new x.solver.vars)) := by
    have hstart : Encodes S ids [] [] [] (.new x.solver.vars) :=
      .new hshape.vars (hshape.lt _ hshape.const) fun id hid ↦ hshape.lt id (Set.mem_insert_of_mem _ hid)
    refine foldlM_meets (fun done solver ↦ Encodes S ids done [] [] solver) _ hstart ?_
    intro done lit rest solver hl hsolver
    have hmem : lit ∈ x.known := by rw [← hl]; exact List.mem_append_right _ List.mem_cons_self
    have hnew : lit ∉ done := fun hdone ↦ by
      have hnodup := hset.nodup
      rw [← hl] at hnodup
      exact (List.nodup_append.mp hnodup).2.2 _ hdone _ List.mem_cons_self rfl
    refine (hsolver.addVar hS (hset.even lit hmem) (hset.ge lit hmem) (h.encodes.mem lit hmem)
      hnew).imp fun solver' hsolver' ↦ ?_
    exact hsolver'.perm (List.perm_append_singleton lit done)
  have hsets : ∀ solver, Encodes S ids x.known [] [] solver →
      Meets (Encodes S ids x.known (x.sets.map List.toFinset) []) fail
        (x.sets.foldlM (fun solver s ↦ solver.addClause s) solver) := by
    intro solver hsolver
    refine foldlM_meets (fun done solver ↦ Encodes S ids x.known (done.map List.toFinset) [] solver)
      _ hsolver ?_
    intro done s rest solver hl hsolver
    obtain ⟨-, hne, hsub⟩ := h.proper s (by rw [← hl]; exact List.mem_append_right _ List.mem_cons_self)
    rw [List.map_append]
    exact hsolver.addSet hne hsub
  have hblocked : ∀ solver, Encodes S ids x.known (x.sets.map List.toFinset) [] solver →
      Meets (Encodes S ids x.known (x.sets.map List.toFinset) (x.blocked.map List.toFinset)) fail
        (x.blocked.foldlM (fun solver soln ↦ solver.addClause (negateVec soln)) solver) := by
    intro solver hsolver
    refine foldlM_meets (fun done solver ↦ Encodes S ids x.known (x.sets.map List.toFinset)
      (done.map List.toFinset) solver) _ hsolver ?_
    intro done soln rest solver hl hsolver
    obtain ⟨hne, hsub⟩ := h.blocks soln (by rw [← hl]; exact List.mem_append_right _ List.mem_cons_self)
    rw [List.map_append]
    exact hsolver.block hne hsub
  unfold renew
  refine hknown.bind fun solver₁ h₁ ↦ (hsets solver₁ h₁).bind fun solver₂ h₂ ↦
    (hblocked solver₂ h₂).bind fun solver₃ h₃ ↦ ?_
  rw [h.blocked_eq] at h₃
  exact ⟨h₃.congr fun t ↦ h.reduced.admissible_iff.symm, h.proper, h.reduced, h.blocks, h.blocked_eq⟩

/-- What a solve has to answer: a minimum hitting set that contains nothing blocked, or nothing
if there is none. -/
def IsAnswer (sets blocked : List (Finset ℕ)) (soln : List ℕ) : Prop :=
  soln.Nodup ∧ (IsMinimum (Admissible sets blocked) soln.toFinset ∨
    soln = [] ∧ ∀ t, ¬ Admissible sets blocked t)

theorem solve_meets (hS : S.Relevant) (h : Rep S ids sets blocked x) :
    Meets (fun r ↦ Rep S ids sets blocked r.2 ∧ IsAnswer sets blocked r.1) x.solver.TooLarge
      (x.solve o S) := by
  unfold solve
  refine (h.encodes.solve hS fun t ht ↦ h.inter ht).bind fun r hr ↦ ?_
  obtain ⟨solver, sat⟩ := r
  obtain ⟨henc, hnone, hsome⟩ := hr
  have hrep : Rep S ids sets blocked { x with solver := solver } :=
    ⟨henc, h.proper, h.reduced, h.blocks, h.blocked_eq⟩
  dsimp only at hnone hsome ⊢
  cases sat with
  | false =>
    rw [if_neg Bool.false_ne_true, meets_pure]
    exact ⟨hrep, List.nodup_nil, .inr ⟨rfl, hnone rfl⟩⟩
  | true =>
    obtain ⟨t, hsub, hmin, hvals⟩ := hsome rfl
    rw [if_pos rfl]
    have hfold : Meets (fun soln ↦ soln = x.known.filter (· ∈ t)) x.solver.TooLarge
        (x.known.foldlM (fun soln lit ↦ do
          let value ← solver.getAssignment lit
          return if value then soln ++ [lit] else soln) []) := by
      refine foldlM_meets (fun done soln ↦ soln = done.filter (· ∈ t)) [] rfl ?_
      intro done lit rest soln hl hsoln
      have hmem : lit ∈ x.known := by rw [← hl]; exact List.mem_append_right _ List.mem_cons_self
      rw [hvals lit hmem, ok_bind, meets_pure, List.filter_append, hsoln, List.filter_cons,
        List.filter_nil]
      split
      · rfl
      · exact (List.append_nil _).symm
    refine hfold.bind fun soln hsoln ↦ ?_
    have heq : soln.toFinset = t := by
      ext id
      rw [List.mem_toFinset, hsoln, List.mem_filter, decide_eq_true_iff]
      exact ⟨And.right, fun hid ↦ ⟨List.mem_toFinset.mp (hsub hid), hid⟩⟩
    refine ⟨hrep, hsoln ▸ h.encodes.idSet.nodup.filter _, .inl ?_⟩
    rw [heq]
    exact hmin

end Operations

end HittingSetFinder

inductive HittingSetCall
  | newVar
  | addSet (s : List ℕ)
  | blockSolution (soln : List ℕ)
  | renew
  | solve

def addedSets (calls : List HittingSetCall) : List (Finset ℕ) :=
  calls.filterMap fun
    | .addSet s => some s.toFinset
    | _ => none

def blockedSolutions (calls : List HittingSetCall) : List (Finset ℕ) :=
  calls.filterMap fun
    | .blockSolution soln => some soln.toFinset
    | _ => none

namespace HittingSetFinder

structure Session where
  finder : HittingSetFinder
  ids : Set ℕ

namespace Session

def start (vm : VariableManager) : Session := ⟨.new vm, {id | minId ≤ id ∧ id < vm.nextID}⟩

def call (order : HashOrder) (o : MSU4Options) (S : SAT.Solver) (x : Session) :
    HittingSetCall → Result Session
  | .newVar => do
    let (id, vm) ← x.finder.solver.vars.getNewID 0
    return ⟨{ x.finder with solver := { x.finder.solver with vars := vm } }, insert id x.ids⟩
  | .addSet s => do return { x with finder := ← x.finder.addSet order s }
  | .blockSolution soln => do return { x with finder := ← x.finder.blockSolution soln }
  | .renew => do return { x with finder := ← x.finder.renew }
  | .solve => do return { x with finder := (← x.finder.solve o S).2 }

/-- Sets are sorted, not empty and of positive IDs, and solutions are of known IDs. -/
def Admits (x : Session) : HittingSetCall → Prop
  | .addSet s => isSorted s = true ∧ s ≠ [] ∧ ∀ lit ∈ s, isNegated lit = false ∧ lit ∈ x.ids
  | .blockSolution soln => soln ≠ [] ∧ soln ⊆ x.finder.known
  | .newVar | .renew | .solve => True

def Fails (x : Session) : HittingSetCall → Failure → Prop
  | .newVar, e => e = .idsExhausted
  | .solve, e => x.finder.solver.TooLarge e
  | _, _ => False

end Session

inductive Reached (order : HashOrder) (o : MSU4Options) (S : SAT.Solver) :
    List HittingSetCall → Session → Prop
  | start (vm : VariableManager) (hvm : vm.Inv) : Reached order o S [] (.start vm)
  | call {calls : List HittingSetCall} {x x' : Session} (c : HittingSetCall)
      (hx : Reached order o S calls x) (hc : x.Admits c) (hcall : x.call order o S c = .ok x') :
      Reached order o S (calls ++ [c]) x'

section Sessions

variable {S : SAT.Solver} {o : MSU4Options} {order : HashOrder} {calls calls' : List HittingSetCall}
  {x x' : Session}

structure Holds (S : SAT.Solver) (calls : List HittingSetCall) (x : Session) : Prop where
  rep : Rep S x.ids (addedSets calls) (blockedSolutions calls) x.finder
  ids_ge : ∀ id ∈ x.ids, minId ≤ id

theorem holds_start {vm : VariableManager} (hvm : vm.Inv) : Holds S [] (.start vm) := by
  have hmin := hvm.minId_le
  have hid : minId = idFalse + 2 := rfl
  refine ⟨⟨.new hvm (by omega) fun id hid ↦ hid.2, nofun, reduced_nil, nofun, rfl⟩, ?_⟩
  exact fun id hid ↦ hid.1

/-- A call, whichever it is, does to the finder what it does to the sets and solutions. -/
theorem call_meets (hS : S.Relevant) (h : Holds S calls x) {c : HittingSetCall} (hc : x.Admits c) :
    Meets (Holds S (calls ++ [c])) (x.Fails c) (x.call order o S c) := by
  have hsame : ∀ {finder : HittingSetFinder},
      Rep S x.ids (addedSets calls) (blockedSolutions calls) finder →
      addedSets (calls ++ [c]) = addedSets calls →
      blockedSolutions (calls ++ [c]) = blockedSolutions calls →
      Holds S (calls ++ [c]) { x with finder := finder } := by
    intro finder hrep hadded hblocked
    refine ⟨?_, h.ids_ge⟩
    rw [hadded, hblocked]
    exact hrep
  have hadded : addedSets (calls ++ [c]) = addedSets calls ++ addedSets [c] := List.filterMap_append
  have hblocked : blockedSolutions (calls ++ [c]) = blockedSolutions calls ++ blockedSolutions [c] :=
    List.filterMap_append
  cases c with
  | newVar =>
    have hinv := h.rep.encodes.rest.shape.vars
    have hnew : Meets _ (x.Fails .newVar) (x.finder.solver.vars.getNewID 0) :=
      VariableManager.getNewID_meets hinv rfl (absurd rfl) fun _ ↦ rfl
    refine hnew.bind fun r hr ↦ ?_
    obtain ⟨id, vm⟩ := r
    have hrep : Rep S (insert id x.ids) (addedSets calls) (blockedSolutions calls)
        { x.finder with solver := { x.finder.solver with vars := vm } } :=
      ⟨h.rep.encodes.withVars hr.inv hr.id_eq hr.nextID, h.rep.proper, h.rep.reduced, h.rep.blocks,
        h.rep.blocked_eq⟩
    refine ⟨?_, fun v hv ↦ ?_⟩
    · rw [hadded, hblocked]
      simpa [addedSets, blockedSolutions] using hrep
    · cases hv with
      | inl hv =>
        have hid : id = x.finder.solver.vars.nextID := hr.id_eq
        rw [hv, hid]
        exact hinv.minId_le
      | inr hv => exact h.ids_ge v hv
  | addSet s =>
    obtain ⟨hsorted, hne, hs⟩ := hc
    have hlits : ∀ lit ∈ s, isNegated lit = false ∧ minId ≤ lit ∧ lit ∈ x.ids := fun lit hl ↦
      ⟨(hs lit hl).1, h.ids_ge lit (hs lit hl).2, (hs lit hl).2⟩
    refine (addSet_meets hS h.rep hsorted hne hlits).bind fun finder hrep ↦ ⟨?_, h.ids_ge⟩
    rw [hadded, hblocked]
    simpa [addedSets, blockedSolutions] using hrep
  | blockSolution soln =>
    refine (blockSolution_meets h.rep hc.1 hc.2).bind fun finder hrep ↦ ⟨?_, h.ids_ge⟩
    rw [hadded, hblocked]
    simpa [addedSets, blockedSolutions] using hrep
  | renew =>
    refine (renew_meets hS h.rep).bind fun finder hrep ↦ hsame hrep ?_ ?_
    · exact hadded.trans (List.append_nil _)
    · exact hblocked.trans (List.append_nil _)
  | solve =>
    refine (solve_meets hS h.rep).bind fun r hr ↦ hsame hr.1 ?_ ?_
    · exact hadded.trans (List.append_nil _)
    · exact hblocked.trans (List.append_nil _)

theorem Reached.holds (hS : S.Relevant) (h : Reached order o S calls x) : Holds S calls x := by
  induction h with
  | start vm hvm => exact holds_start hvm
  | call c _ hc hcall ih => exact (call_meets hS ih hc).of_ok hcall

theorem Reached.exists_call (hS : S.Relevant) (h : Reached order o S calls x) {c : HittingSetCall} (hc : x.Admits c)
    (hfails : ∀ e, ¬ x.Fails c e) :
    ∃ x', Reached order o S (calls ++ [c]) x' ∧ (c ≠ .newVar → x'.ids = x.ids) := by
  obtain ⟨x', hx', -⟩ := ((call_meets hS (h.holds hS) hc).weaken hfails).exists_ok
  refine ⟨x', h.call c hc hx', fun hne ↦ ?_⟩
  cases c with
  | newVar => exact absurd rfl hne
  | _ =>
    obtain ⟨r, -, hr⟩ := bind_eq_ok.mp hx'
    cases hr
    rfl

theorem not_tooLarge_three {s : MSU4MaxSATSolver} (hid : s.vars.nextID = 10) (hlen : s.optimizationSet.length = 3)
    (e : Failure) : ¬ s.TooLarge e := by
  have hcost : 10 + MSU4MaxSATSolver.solveIDs 3 ≤ 2 ^ 32 := by decide
  intro he
  cases e with
  | narrowed => exact absurd he (by simp only [MSU4MaxSATSolver.TooLarge, hid, hlen]; omega)
  | idsExhausted => exact absurd he (by simp only [MSU4MaxSATSolver.TooLarge, hid, hlen]; omega)
  | assertion => exact absurd he (by simp only [MSU4MaxSATSolver.TooLarge, hlen]; omega)
  | _ => exact he

theorem IsAnswer.length_eq {sets blocked sets' blocked' : List (Finset ℕ)} {soln soln' : List ℕ}
    (h : IsAnswer sets blocked soln) (h' : IsAnswer sets' blocked' soln')
    (hiff : ∀ t, Admissible sets' blocked' t ↔ Admissible sets blocked t) :
    soln'.length = soln.length := by
  obtain ⟨hnodup, hmin⟩ := h
  obtain ⟨hnodup', hmin'⟩ := h'
  rw [← List.toFinset_card_of_nodup hnodup, ← List.toFinset_card_of_nodup hnodup']
  cases hmin with
  | inl hmin =>
    cases hmin' with
    | inl hmin' => exact (hmin'.congr hiff).card_eq hmin
    | inr hno' => exact absurd ((hiff _).mpr hmin.1) (hno'.2 _)
  | inr hno =>
    cases hmin' with
    | inl hmin' => exact absurd ((hiff _).mp hmin'.1) (hno.2 _)
    | inr hno' => rw [hno.1, hno'.1]

/-- After any calls a solve finds a minimum hitting set. Its size depends on nothing but the
sets to hit and the solutions blocked, and for the former those that are left will do. -/
theorem solve_right (hS : S.Relevant) (h : Reached order o S calls x) :
    Meets (fun r ↦ IsAnswer (addedSets calls) (blockedSolutions calls) r.1)
      x.finder.solver.TooLarge (x.finder.solve o S) ∧
    (∀ c, x.Admits c → Meets (fun _ ↦ True) (x.Fails c) (x.call order o S c)) ∧
    (∀ t, Hits (addedSets calls) t ↔ Hits (x.finder.sets.map List.toFinset) t) ∧
    ∀ calls' x', Reached order o S calls' x' →
      (∀ t, Admissible (addedSets calls') (blockedSolutions calls') t ↔
        Admissible (addedSets calls) (blockedSolutions calls) t) →
      ∀ r r', x.finder.solve o S = .ok r → x'.finder.solve o S = .ok r' →
        r'.1.length = r.1.length := by
  have hx := h.holds hS
  refine ⟨(solve_meets hS hx.rep).imp fun _ ↦ And.right, fun c hc ↦ ?_,
    fun t ↦ hx.rep.reduced.hits_iff, fun calls' x' h' hiff r r' hr hr' ↦ ?_⟩
  · exact (call_meets hS hx hc).imp fun _ _ ↦ trivial
  · have hanswer := ((solve_meets hS hx.rep).of_ok hr).2
    have hanswer' := ((solve_meets hS (h'.holds hS).rep).of_ok hr').2
    exact hanswer.length_eq hanswer' hiff

theorem solve_right_three : ∃ x,
    Reached ⟨fun known lit ↦ lit :: known, fun _ _ ↦ .refl _⟩ ⟨32, 1, true, Nat.one_pos⟩ .minimal
      [.addSet [4, 6], .addSet [6, 8], .solve, .addSet [8], .renew] x ∧
    Meets (fun r ↦ IsAnswer [{4, 6}, {6, 8}, {8}] [] r.1) x.finder.solver.TooLarge
      (x.finder.solve ⟨32, 1, true, Nat.one_pos⟩ .minimal) := by
  have hS := SAT.Solver.minimal_relevant
  let order : HashOrder := ⟨fun known lit ↦ lit :: known, fun _ _ ↦ .refl _⟩
  let o : MSU4Options := ⟨32, 1, true, Nat.one_pos⟩
  have hstart : Reached order o .minimal [] (.start .three) := .start _ VariableManager.inv_three
  have hids : ∀ lit ∈ [4, 6, 8], isNegated lit = false ∧ minId ≤ lit ∧ lit < VariableManager.three.nextID := by decide
  obtain ⟨x₂, h₂, hids₂, hroom⟩ : ∃ x, Reached order o .minimal [.addSet [4, 6], .addSet [6, 8]] x ∧
      x.ids = (Session.start .three).ids ∧ ∀ e, ¬ x.finder.solver.TooLarge e := by
    refine ⟨_, (hstart.call (.addSet [4, 6]) ⟨rfl, by decide, ?_⟩ rfl).call (.addSet [6, 8]) ⟨rfl, by decide, ?_⟩ rfl,
      rfl, not_tooLarge_three rfl rfl⟩
    · exact fun lit hl ↦ hids lit (List.mem_of_mem_take (i := 2) hl)
    · exact fun lit hl ↦ hids lit (List.mem_cons_of_mem 4 hl)
  obtain ⟨x₃, h₃, hids₃⟩ := h₂.exists_call hS (c := .solve) trivial hroom
  have hset : x₃.Admits (.addSet [8]) := by
    refine ⟨rfl, by decide, fun lit hl ↦ ?_⟩
    rw [hids₃ nofun, hids₂]
    exact hids lit (List.mem_cons_of_mem 4 (List.mem_cons_of_mem 6 hl))
  obtain ⟨x₄, h₄, -⟩ := h₃.exists_call hS hset fun _ ↦ id
  obtain ⟨x₅, h₅, -⟩ := h₄.exists_call hS (c := .renew) trivial fun _ ↦ id
  exact ⟨x₅, h₅, (solve_right hS h₅).1⟩

end Sessions

end HittingSetFinder

end PME
