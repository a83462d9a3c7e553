import PME.Execution

namespace PME

open Outcome

structure DebugTransitionRelation extends TransitionRelation where
  debugLatchIDs : List ℕ
  debugPPIs : List ℕ
  idToDebugLatch : List (ℕ × ℕ)
  debugLatchToID : List (ℕ × ℕ)
  idToDebugPPI : List (ℕ × ℕ)

/-- The copy constructor, which leaves the constraints out. -/
def TransitionRelation.copy (other : TransitionRelation) : TransitionRelation where
  bad := other.bad
  latches := other.latches
  gates := other.gates
  latchIDs := other.latchIDs
  inputIDs := other.inputIDs
  gateIDs := other.gateIDs
  constraints := []
  gateCNF := AndGate.toCNF

namespace DebugTransitionRelation

def debugLatchForGate (d : DebugTransitionRelation) (id : ℕ) : ℕ :=
  (d.idToDebugLatch.lookup id).getD idNull

def debugPPIForGate (d : DebugTransitionRelation) (id : ℕ) : ℕ :=
  (d.idToDebugPPI.lookup id).getD idNull

def gateForDebugLatch (d : DebugTransitionRelation) (id : ℕ) : Result ℕ :=
  match d.debugLatchToID.lookup id with
  | some gate => return gate
  | none => throw .assertion

def createDebugFor (s : DebugTransitionRelation × VariableManager) (gate : ℕ) :
    Result (DebugTransitionRelation × VariableManager) := do
  let (d, vm) := s
  ensure (d.idToDebugLatch.lookup gate).isNone
  -- the gate's external ID names the latch, and then the input
  let _ ← vm.toExternal gate
  let (debugLatch, vm) ← TransitionRelation.createInternalVar vm
  ensure (d.debugLatchToID.lookup debugLatch).isNone
  ensure (d.idToDebugLatch.lookup gate).isNone
  let tr ← d.createLatch debugLatch debugLatch idNull
  let _ ← vm.toExternal gate
  let (debugInput, vm) ← TransitionRelation.createInternalVar vm
  ensure (d.idToDebugPPI.lookup gate).isNone
  let tr ← tr.createInput debugInput
  return ({
    toTransitionRelation := tr
    debugLatchIDs := d.debugLatchIDs ++ [debugLatch]
    debugPPIs := d.debugPPIs ++ [debugInput]
    idToDebugLatch := (gate, debugLatch) :: d.idToDebugLatch
    debugLatchToID := (debugLatch, gate) :: d.debugLatchToID
    idToDebugPPI := (gate, debugInput) :: d.idToDebugPPI }, vm)

/-- The overriding `toCNF`: the gate's clauses hold when its debug latch is low, and the gate
is its debug input when the latch is high. -/
def debugCNF (d : DebugTransitionRelation) (gate : AndGate) : ClauseVec :=
  let debugLatch := d.debugLatchForGate gate.lhs
  let ppi := d.debugPPIForGate gate.lhs
  gate.toCNF.map (· ++ [debugLatch]) ++
    [[gate.lhs, negate ppi, negate debugLatch], [negate gate.lhs, ppi, negate debugLatch]]

def enhanceModel (d : DebugTransitionRelation) (vm : VariableManager) :
    Result (DebugTransitionRelation × VariableManager) := do
  let (d, vm) ← d.gateIDs.foldlM createDebugFor (d, vm)
  return ({ d with gateCNF := d.debugCNF }, vm)

def fromRelation (vm : VariableManager) (tr : TransitionRelation) :
    Result (DebugTransitionRelation × VariableManager) :=
  enhanceModel ⟨tr.copy, [], [], [], [], []⟩ vm

variable {tr : TransitionRelation} {vm vm' : VariableManager} {d : DebugTransitionRelation}
  {fail : Failure → Prop}

theorem createInternalVar_meets (h : vm.Inv) (hids : maxId < vm.nextID → fail .idsExhausted) :
    Meets (fun r ↦ r.1 = vm.nextID ∧ r.2.nextID = vm.nextID + 2 ∧ r.2.Inv) fail
      (TransitionRelation.createInternalVar vm) := by
  unfold TransitionRelation.createInternalVar TransitionRelation.createVar
  simp only [show aigerSign 0 = false from rfl, Bool.not_false, ensure_true, ok_bind]
  refine (VariableManager.getNewID_meets h rfl (fun h0 ↦ absurd rfl h0) hids).bind fun r hr ↦ ?_
  obtain ⟨id, vm₁⟩ := r
  obtain ⟨rfl, hmax, hnext, hinv, -⟩ := hr
  have hmin := h.minId_le
  have heven := h.even
  refine (VariableManager.varOf_meets hinv (Nat.le_trans (by decide) hmin) ?_ heven).bind
    fun i hi ↦ ?_
  · rw [hnext]
    omega
  · exact ⟨hi, hnext, hinv⟩

def latchAt (n j : ℕ) : ℕ := n + 4 * j
def ppiAt (n j : ℕ) : ℕ := n + 4 * j + 2

structure Enhanced (tr : TransitionRelation) (n : ℕ) (done : List ℕ)
    (s : DebugTransitionRelation × VariableManager) : Prop where
  inv : s.2.Inv
  nextID : s.2.nextID = n + 4 * done.length
  base : s.1.toTransitionRelation = { tr.copy with
    latches := tr.latches ++
      (List.range done.length).map fun j ↦ ⟨latchAt n j, latchAt n j, idNull⟩
    latchIDs := tr.latchIDs ++ (List.range done.length).map (latchAt n)
    inputIDs := tr.inputIDs ++ (List.range done.length).map (ppiAt n) }
  latch : ∀ j (hj : j < done.length), s.1.idToDebugLatch.lookup done[j] = some (latchAt n j)
  ppi : ∀ j (hj : j < done.length), s.1.idToDebugPPI.lookup done[j] = some (ppiAt n j)
  undone : ∀ g ∉ done, s.1.idToDebugLatch.lookup g = none ∧ s.1.idToDebugPPI.lookup g = none
  fresh : ∀ id, s.2.nextID ≤ id → s.1.debugLatchToID.lookup id = none

theorem lookup_cons_snoc {α : Type} {m : List (ℕ × α)} {done : List ℕ} {gate : ℕ} {f : ℕ → α}
    (hnew : gate ∉ done) (h : ∀ j (hj : j < done.length), m.lookup done[j] = some (f j)) :
    ∀ j (hj : j < (done ++ [gate]).length),
      ((gate, f done.length) :: m).lookup (done ++ [gate])[j] = some (f j) := by
  intro j hj
  rw [List.length_append, List.length_singleton] at hj
  rcases Nat.lt_or_eq_of_le (Nat.le_of_lt_succ hj) with hlt | rfl
  · rw [List.getElem_append_left hlt, List.lookup_cons, beq_false_of_ne]
    · exact h j hlt
    · rintro heq
      exact hnew (heq ▸ List.getElem_mem hlt)
  · simp

theorem createDebugFor_meets {n : ℕ} {done : List ℕ} {gate : ℕ}
    {s : DebugTransitionRelation × VariableManager} (h : Enhanced tr n done s)
    (hold : ∀ v ∈ tr.signals, v < n) (hids : tr.latchIDs = tr.latches.map Latch.id)
    (hgate : idFalse ≤ gate ∧ gate < n ∧ gate % 2 = 0) (hnew : gate ∉ done)
    (hfail : maxId + 1 < n + 4 * (done.length + 1) → fail .idsExhausted) :
    Meets (Enhanced tr n (done ++ [gate])) fail (createDebugFor s gate) := by
  obtain ⟨d, vm⟩ := s
  obtain ⟨hinv, hnextID, hbase, hlatch, hppi, hundone, hfresh⟩ := h
  dsimp only at hinv hnextID hbase hlatch hppi hundone hfresh
  obtain ⟨hmin, hlt, heven⟩ := hgate
  obtain ⟨hl, hp⟩ := hundone gate hnew
  have hle := hinv.le_maxId
  have hlatches : d.latches.map Latch.id = d.latchIDs := by
    rw [hbase]
    simp [hids, Function.comp_def]
  unfold createDebugFor
  simp only [hl, Option.isNone_none, ensure_true, ok_bind]
  refine (VariableManager.toExternal_meets hinv hmin (by omega) heven).bind fun _ _ ↦ ?_
  refine (createInternalVar_meets hinv fun _ ↦ hfail (by omega)).bind fun r₁ h₁ ↦ ?_
  obtain ⟨dl, vm₁⟩ := r₁
  obtain ⟨hdl, hnext₁, hinv₁⟩ := h₁
  dsimp only at hdl hnext₁ hinv₁
  have hdl' : dl = latchAt n done.length := by rw [hdl, hnextID, latchAt]
  have hnotin : ∀ v ∈ tr.signals, ∀ j, v ≠ latchAt n j ∧ v ≠ ppiAt n j := by
    intro v hv j
    have hvn := hold v hv
    simp only [latchAt, ppiAt]
    omega
  have hlatchIn : ∀ v ∈ tr.latchIDs, v ∈ tr.signals := fun v hv ↦
    List.mem_append_left _ (List.mem_append_right _ hv)
  have hinputIn : ∀ v ∈ tr.inputIDs, v ∈ tr.signals := fun v hv ↦
    List.mem_append_left _ (List.mem_append_left _ hv)
  have hdlnew : dl ∉ d.latches.map Latch.id := by
    rw [hlatches, hbase, hdl']
    simp only [List.mem_append, List.mem_map, List.mem_range, latchAt]
    rintro (hmem | ⟨j, hj, heq⟩)
    · exact (hnotin _ (hlatchIn _ hmem) done.length).1 rfl
    · omega
  rw [hfresh dl (by omega)]
  simp only [Option.isNone_none, ensure_true, ok_bind, TransitionRelation.createLatch]
  rw [show (!(d.latches.map Latch.id).contains dl) = true by simpa using hdlnew]
  simp only [ensure_true, ok_bind, pure_bind]
  refine (VariableManager.toExternal_meets hinv₁ hmin (by omega) heven).bind fun _ _ ↦ ?_
  have hle₁ := hinv₁.le_maxId
  refine (createInternalVar_meets hinv₁ fun _ ↦ hfail (by omega)).bind fun r₂ h₂ ↦ ?_
  obtain ⟨di, vm₂⟩ := r₂
  obtain ⟨hdi, hnext₂, hinv₂⟩ := h₂
  dsimp only at hdi hnext₂ hinv₂
  have hdi' : di = ppiAt n done.length := by
    rw [hdi, hnext₁, hnextID, ppiAt]
  have hdinew : di ∉ d.inputIDs := by
    rw [hbase, hdi']
    simp only [List.mem_append, List.mem_map, List.mem_range, ppiAt]
    rintro (hmem | ⟨j, hj, heq⟩)
    · exact (hnotin _ (hinputIn _ hmem) done.length).2 rfl
    · omega
  simp only [hp, Option.isNone_none, ensure_true, ok_bind, TransitionRelation.createInput]
  rw [show (!d.inputIDs.contains di) = true by simpa using hdinew]
  simp only [ensure_true, ok_bind, pure_bind, meets_pure]
  subst hdl' hdi'
  refine ⟨hinv₂, ?_, ?_, lookup_cons_snoc hnew hlatch, lookup_cons_snoc hnew hppi, ?_, ?_⟩
  · rw [hnext₂, hnext₁, hnextID, List.length_append, List.length_singleton]
    omega
  · dsimp only
    rw [hbase, List.length_append, List.length_singleton, List.range_succ]
    simp
  · intro g hg
    rw [List.mem_append, List.mem_singleton, not_or] at hg
    obtain ⟨hlg, hpg⟩ := hundone g hg.1
    simp only [List.lookup_cons, beq_false_of_ne hg.2]
    exact ⟨hlg, hpg⟩
  · intro id hid
    rw [hnext₂, hnext₁] at hid
    dsimp only at hid ⊢
    rw [List.lookup_cons, beq_false_of_ne (by rw [latchAt]; omega)]
    exact hfresh id (by omega)

/-- What the constructor makes: the circuit without its constraints, and for the `j`-th gate
a latch that keeps its value, an input, and the clauses that choose between them. -/
structure IsDebug (tr : TransitionRelation) (n : ℕ) (d : DebugTransitionRelation) : Prop where
  base : d.toTransitionRelation = { tr.copy with
    latches := tr.latches ++
      (List.range tr.gateIDs.length).map fun j ↦ ⟨latchAt n j, latchAt n j, idNull⟩
    latchIDs := tr.latchIDs ++ (List.range tr.gateIDs.length).map (latchAt n)
    inputIDs := tr.inputIDs ++ (List.range tr.gateIDs.length).map (ppiAt n)
    gateCNF := d.debugCNF }
  latch : ∀ j (hj : j < tr.gateIDs.length), d.debugLatchForGate tr.gateIDs[j] = latchAt n j
  ppi : ∀ j (hj : j < tr.gateIDs.length), d.debugPPIForGate tr.gateIDs[j] = ppiAt n j

structure Indexed (n : ℕ) (done : List ℕ) (d : DebugTransitionRelation) : Prop where
  latches : d.debugLatchIDs = (List.range done.length).map (latchAt n)
  gate : ∀ j g, done[j]? = some g → d.debugLatchToID.lookup (latchAt n j) = some g

theorem createDebugFor_records {gate : ℕ} {s s' : DebugTransitionRelation × VariableManager}
    (h : createDebugFor s gate = .ok s') : ∃ dl, s'.1.idToDebugLatch.lookup gate = some dl ∧
      s'.1.debugLatchIDs = s.1.debugLatchIDs ++ [dl] ∧
      s'.1.debugLatchToID = (dl, gate) :: s.1.debugLatchToID := by
  unfold createDebugFor at h
  dsimp only at h
  obtain ⟨-, -, h⟩ := bind_eq_ok.mp h
  obtain ⟨-, -, h⟩ := bind_eq_ok.mp h
  obtain ⟨⟨dl, vm₁⟩, -, h⟩ := bind_eq_ok.mp h
  dsimp only at h
  obtain ⟨-, -, h⟩ := bind_eq_ok.mp h
  obtain ⟨-, -, h⟩ := bind_eq_ok.mp h
  obtain ⟨tr₁, -, h⟩ := bind_eq_ok.mp h
  obtain ⟨-, -, h⟩ := bind_eq_ok.mp h
  obtain ⟨⟨di, vm₂⟩, -, h⟩ := bind_eq_ok.mp h
  dsimp only at h
  obtain ⟨-, -, h⟩ := bind_eq_ok.mp h
  obtain ⟨tr₂, -, h⟩ := bind_eq_ok.mp h
  obtain rfl := Except.ok.inj h
  refine ⟨dl, ?_, rfl, rfl⟩
  simp

theorem Indexed.snoc {n : ℕ} {done : List ℕ} {gate : ℕ}
    {s s' : DebugTransitionRelation × VariableManager} (h : Indexed n done s.1)
    (hs : Enhanced tr n (done ++ [gate]) s') (hok : createDebugFor s gate = .ok s') :
    Indexed n (done ++ [gate]) s'.1 := by
  obtain ⟨dl, hlookup, hlatches, hgates⟩ := createDebugFor_records hok
  have hlast := hs.latch done.length (by rw [List.length_append, List.length_singleton]; omega)
  rw [List.getElem_concat_length rfl, hlookup, Option.some_inj] at hlast
  constructor
  · rw [hlatches, h.latches, hlast, List.length_append, List.length_singleton, List.range_succ,
      List.map_append, List.map_singleton]
  · intro j g hg
    rw [hgates, hlast]
    rcases Nat.lt_or_ge j done.length with hlt | hge
    · rw [List.getElem?_append_left hlt] at hg
      have hne : latchAt n j ≠ latchAt n done.length := by
        rw [latchAt, latchAt]
        omega
      rw [List.lookup_cons, beq_false_of_ne hne]
      exact h.gate j g hg
    · obtain ⟨hj, hget⟩ := List.getElem?_eq_some_iff.mp hg
      rw [List.length_append, List.length_singleton] at hj
      obtain rfl : j = done.length := by omega
      rw [List.getElem_concat_length rfl] at hget
      rw [hget]
      simp

theorem createDebug_meets (h : tr.WellFormed) (hvm : vm.Inv) (hold : ∀ v ∈ tr.signals, v < vm.nextID) :
    Meets (fun s ↦ Enhanced tr vm.nextID tr.gateIDs s ∧ Indexed vm.nextID tr.gateIDs s.1)
      (fun e ↦ e = .idsExhausted ∧ maxId + 1 < vm.nextID + 4 * tr.gateIDs.length)
      (tr.gateIDs.foldlM createDebugFor (⟨tr.copy, [], [], [], [], []⟩, vm)) := by
  refine foldlM_meets (l := tr.gateIDs)
    (fun done s ↦ Enhanced tr vm.nextID done s ∧ Indexed vm.nextID done s.1) _ ⟨?_, rfl, nofun⟩ ?_
  · refine ⟨hvm, rfl, ?_, nofun, nofun, fun _ _ ↦ ⟨rfl, rfl⟩, fun _ _ ↦ rfl⟩
    simp [TransitionRelation.copy]
  · intro done gate rest s hl hs
    have hmem : gate ∈ tr.gateIDs := hl ▸ List.mem_append_right done List.mem_cons_self
    have hsig : gate ∈ tr.signals := List.mem_append_right _ hmem
    obtain ⟨hmin, -, heven⟩ := h.isVar gate hsig
    have hnodup : (done ++ gate :: rest).Nodup := hl ▸ (List.nodup_append.mp h.nodup).2.1
    have hlen : done.length + 1 ≤ tr.gateIDs.length := by
      rw [← hl, List.length_append, List.length_cons]
      omega
    have hstep : Meets _ (fun e : Failure ↦ e = .idsExhausted ∧
        maxId + 1 < vm.nextID + 4 * tr.gateIDs.length) _ := createDebugFor_meets hs.1 hold h.latchIDs_eq
      ⟨Nat.le_trans (by decide) hmin, hold gate hsig, heven⟩
      (fun hin ↦ (List.nodup_append.mp hnodup).2.2 _ hin _ List.mem_cons_self rfl)
      fun hlt ↦ ⟨rfl, by omega⟩
    exact hstep.self.imp fun s' hs' ↦ ⟨hs'.2, hs.2.snoc hs'.2 hs'.1⟩

theorem fromRelation_meets (h : tr.WellFormed) (hvm : vm.Inv) (hold : ∀ v ∈ tr.signals, v < vm.nextID) :
    Meets (fun r ↦ IsDebug tr vm.nextID r.1 ∧ r.2.Inv ∧
        r.2.nextID = vm.nextID + 4 * tr.gateIDs.length)
      (fun e ↦ e = .idsExhausted ∧ maxId + 1 < vm.nextID + 4 * tr.gateIDs.length)
      (fromRelation vm tr) := by
  unfold fromRelation enhanceModel
  refine (createDebug_meets h hvm hold).bind fun s hs ↦ ?_
  obtain ⟨d, vm'⟩ := s
  obtain ⟨⟨hinv, hnextID, hbase, hlatch, hppi, -, -⟩, -⟩ := hs
  refine ⟨⟨?_, fun j hj ↦ ?_, fun j hj ↦ ?_⟩, hinv, hnextID⟩
  · dsimp only at hbase ⊢
    rw [hbase]
    rfl
  · simpa [debugLatchForGate] using congrArg (Option.getD · idNull) (hlatch j hj)
  · simpa [debugPPIForGate] using congrArg (Option.getD · idNull) (hppi j hj)

/-- The constructor's tables lead from the gates to their debug latches and back. -/
theorem fromRelation_indexed (h : tr.WellFormed) (hvm : vm.Inv)
    (hold : ∀ v ∈ tr.signals, v < vm.nextID) {r : DebugTransitionRelation × VariableManager}
    (hok : fromRelation vm tr = .ok r) : Indexed vm.nextID tr.gateIDs r.1 := by
  obtain ⟨s, hs, hr⟩ := bind_eq_ok.mp hok
  obtain rfl := Except.ok.inj hr
  have hindexed := ((createDebug_meets h hvm hold).of_ok hs).2
  exact ⟨hindexed.latches, hindexed.gate⟩

end DebugTransitionRelation

end PME
