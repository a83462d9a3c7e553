import PME.CardinalityNetwork

namespace PME

open Outcome

/-- Storing an ID in the 32-bit type `unsigned`. -/
def toUnsigned (id : ℕ) : Result ℕ := if id < 2 ^ 32 then return id else throw .narrowed

/-- `SortingConstraint`. Its subclass `SortingLEqConstraint` has only `le` on, and
`SortingGEqConstraint` only `ge`. -/
structure SortingConstraint where
  cardinality : ℕ
  outputs : List ℕ
  inputs : List ℕ
  cnfized : Bool
  le : Bool
  ge : Bool
deriving DecidableEq

namespace SortingConstraint

/-- `SortingCardinalityConstraint`. -/
def sortingCardinalityConstraint : SortingConstraint := ⟨0, [], [], false, true, true⟩

def sortingLEqConstraint : SortingConstraint := ⟨0, [], [], false, true, false⟩

def sortingGEqConstraint : SortingConstraint := ⟨0, [], [], false, false, true⟩

def addInputs (c : SortingConstraint) (ids : List ℕ) : SortingConstraint :=
  { c with inputs := c.inputs ++ ids }

def addInput (c : SortingConstraint) (id : ℕ) : SortingConstraint := c.addInputs [id]

def setCardinality (c : SortingConstraint) (n : ℕ) : SortingConstraint :=
  { c with cardinality := n }

def getOutputCardinality (c : SortingConstraint) : ℕ := min c.cardinality c.inputs.length

def CNFize (c : SortingConstraint) (vm : VariableManager) :
    Result (VariableManager × SortingConstraint × ClauseVec) := do
  let network ← cardinalityNetwork vm c.inputs c.cardinality c.le c.ge
  return (network.vm, { c with outputs := network.outputs, cnfized := true }, network.cnf)

/-- The loop of the functions below. Every output is read into an `unsigned`. -/
def collect (c : SortingConstraint) (keep : ℕ → Bool) (f : ℕ → ℕ) : Result Cube := do
  ensure c.cnfized
  let lits ← c.outputs.mapM toUnsigned
  return lits.zipIdx.filterMap fun (y, i) ↦ if keep i then some (f y) else none

def assumeLT (c : SortingConstraint) (n : ℕ) : Result Cube :=
  if !c.le then throw .exception else
  if n = 0 then throw .exception else
  if n > c.getOutputCardinality then throw .exception else
  c.collect (fun i ↦ decide (n > 0) && decide (i ≥ n - 1)) negate

def assumeGT (c : SortingConstraint) (n : ℕ) : Result Cube :=
  if !c.ge then throw .exception else
  if n ≥ c.getOutputCardinality then throw .exception else
  c.collect (fun i ↦ decide (i ≤ n)) id

def assumeEq (c : SortingConstraint) (n : ℕ) : Result Cube :=
  if !c.ge || !c.le then throw .exception else
  if n = c.inputs.length ∧ n = c.getOutputCardinality then return c.inputs else
  if n ≥ c.getOutputCardinality then throw .exception else do
  ensure c.cnfized
  let lits ← c.outputs.mapM toUnsigned
  return lits.zipIdx.map fun (y, i) ↦ if n > 0 ∧ i ≤ n - 1 then y else negate y

def assumeLEq (c : SortingConstraint) (n : ℕ) : Result Cube :=
  if !c.le then throw .exception else
  if n = c.inputs.length ∧ n = c.getOutputCardinality then return [] else
  if n ≥ c.getOutputCardinality then throw .exception else
  c.collect (fun i ↦ decide (i ≥ n)) negate

variable {fail : Failure → Prop} {c : SortingConstraint} {vm vm' : VariableManager} {cnf : ClauseVec}

theorem CNFize_meets (h : vm.Inv) (hdir : (c.le || c.ge) = true) (hne : 0 < c.inputs.length)
    (hm : 0 < c.cardinality) (hins : ∀ w ∈ c.inputs, Old vm.nextID (strip w))
    (hids : maxId + 1 < vm.nextID + 2 * c.inputs.length ^ 3 → fail .idsExhausted) :
    Meets (fun r ↦ r.1.Inv ∧ vm.nextID ≤ r.1.nextID ∧
      r.1.nextID ≤ vm.nextID + 2 * c.inputs.length ^ 3 ∧
      r.2.1 = { c with outputs := r.2.1.outputs, cnfized := true } ∧
      Counts vm r.1 c.inputs c.cardinality c.le c.ge r.2.1.outputs r.2.2) fail (c.CNFize vm) := by
  refine (cardinalityNetwork_meets hdir h hne hm hins hids).bind fun r hr ↦ ?_
  obtain ⟨hlen, gates, hnet, hs⟩ := hr
  exact ⟨hnet.inv, hnet.segment.le, hnet.nextID_le, rfl, hnet.counts hs hlen hins⟩

theorem mapM_toUnsigned_meets {l : List ℕ} (hids : ∀ y ∈ l, 2 ^ 32 ≤ y → fail .narrowed) :
    Meets (· = l) fail (l.mapM toUnsigned) := by
  refine (mapM_meets (R := fun y y' ↦ y = y') fun y hy ↦ ?_).imp fun l' h ↦ ?_
  · unfold toUnsigned
    split
    · exact rfl
    · exact hids y hy (by omega)
  · exact (List.forall₂_eq_eq_eq ▸ h).symm

theorem collect_meets (hcnf : c.cnfized = true)
    (hids : ∀ y ∈ c.outputs, 2 ^ 32 ≤ y → fail .narrowed) (keep : ℕ → Bool) (f : ℕ → ℕ) :
    Meets (fun cube ↦ ∀ lit, lit ∈ cube ↔ ∃ i y, c.outputs[i]? = some y ∧ keep i = true ∧ f y = lit)
      fail (c.collect keep f) := by
  rw [collect, hcnf, ensure_true, ok_bind]
  refine (mapM_toUnsigned_meets hids).bind fun lits hlits ↦ ?_
  subst hlits
  rw [meets_pure]
  intro lit
  rw [List.mem_filterMap]
  constructor
  · rintro ⟨⟨y, i⟩, hmem, hk⟩
    rw [List.mem_zipIdx_iff_getElem?] at hmem
    dsimp only at hk
    split at hk
    · exact ⟨i, y, hmem, ‹_›, Option.some_inj.mp hk⟩
    · exact nomatch hk
  · rintro ⟨i, y, hmem, hk, rfl⟩
    exact ⟨(y, i), List.mem_zipIdx_iff_getElem?.mpr hmem, by simp [hk]⟩

structure Assumes (c : SortingConstraint) (cube : Cube) (p : ℕ → Prop) : Prop where
  sound : ∀ τ : Assignment,
    (c.le = true → ∀ i y, c.outputs[i]? = some y → i < trueCount τ c.inputs → litVal τ y = true) →
    (c.ge = true → ∀ i y, c.outputs[i]? = some y → litVal τ y = true → i < trueCount τ c.inputs) →
    satCube τ cube → p (trueCount τ c.inputs)
  complete : ∀ τ : Assignment,
    (∀ i y, c.outputs[i]? = some y → (litVal τ y = true ↔ i < trueCount τ c.inputs)) →
    p (trueCount τ c.inputs) → satCube τ cube
  vars : ∀ lit ∈ cube, ∃ y ∈ c.outputs, strip lit = strip y

theorem assumeLT_meets (hle : c.le = true) (hcnf : c.cnfized = true)
    (hlen : c.outputs.length = c.getOutputCardinality)
    (hids : ∀ y ∈ c.outputs, 2 ^ 32 ≤ y → fail .narrowed) {n : ℕ}
    (hpos : 0 < n) (hn : n ≤ c.getOutputCardinality) :
    Meets (fun cube ↦ c.Assumes cube (· < n)) fail (c.assumeLT n) := by
  unfold assumeLT
  rw [hle, Bool.not_true, if_neg Bool.false_ne_true, if_neg (by omega), if_neg (by omega)]
  refine (collect_meets hcnf hids _ _).imp fun cube hcube ↦ ?_
  refine ⟨fun τ hτ _ hc ↦ ?_, fun τ hτ hlt lit hl ↦ ?_, fun lit hl ↦ ?_⟩
  · obtain ⟨y, hy⟩ : ∃ y, c.outputs[n - 1]? = some y :=
      ⟨_, List.getElem?_eq_getElem (by omega)⟩
    have hv := hc (negate y) ((hcube _).mpr ⟨n - 1, y, hy, by simp [hpos], rfl⟩)
    rw [litVal_negate, Bool.not_eq_true'] at hv
    by_contra hge
    have htrue := hτ hle (n - 1) y hy (by omega)
    rw [hv] at htrue
    exact Bool.false_ne_true htrue
  · obtain ⟨i, y, hy, hk, rfl⟩ := (hcube lit).mp hl
    rw [Bool.and_eq_true, decide_eq_true_eq, decide_eq_true_eq] at hk
    rw [litVal_negate, Bool.not_eq_true', Bool.eq_false_iff]
    intro hv
    have hi := (hτ i y hy).mp hv
    omega
  · obtain ⟨i, y, hy, -, rfl⟩ := (hcube lit).mp hl
    exact ⟨y, List.mem_of_getElem? hy, strip_negate y⟩

theorem assumeGT_meets (hge : c.ge = true) (hcnf : c.cnfized = true)
    (hlen : c.outputs.length = c.getOutputCardinality)
    (hids : ∀ y ∈ c.outputs, 2 ^ 32 ≤ y → fail .narrowed) {n : ℕ}
    (hn : n < c.getOutputCardinality) :
    Meets (fun cube ↦ c.Assumes cube (n < ·)) fail (c.assumeGT n) := by
  unfold assumeGT
  rw [hge, Bool.not_true, if_neg Bool.false_ne_true, if_neg (by omega)]
  refine (collect_meets hcnf hids _ _).imp fun cube hcube ↦ ?_
  refine ⟨fun τ _ hτ hc ↦ ?_, fun τ hτ hlt lit hl ↦ ?_, fun lit hl ↦ ?_⟩
  · obtain ⟨y, hy⟩ : ∃ y, c.outputs[n]? = some y := ⟨_, List.getElem?_eq_getElem (by omega)⟩
    exact hτ hge n y hy (hc y ((hcube _).mpr ⟨n, y, hy, by simp, rfl⟩))
  · obtain ⟨i, y, hy, hk, rfl⟩ := (hcube lit).mp hl
    rw [decide_eq_true_eq] at hk
    exact (hτ i y hy).mpr (by omega)
  · obtain ⟨i, y, hy, -, rfl⟩ := (hcube lit).mp hl
    exact ⟨y, List.mem_of_getElem? hy, rfl⟩

/-- With as many outputs as inputs, to ask for at most all of them is to ask for nothing. -/
theorem assumeLEq_meets (hle : c.le = true) (hcnf : c.cnfized = true)
    (hlen : c.outputs.length = c.getOutputCardinality)
    (hids : ∀ y ∈ c.outputs, 2 ^ 32 ≤ y → fail .narrowed) {n : ℕ}
    (hn : n < c.getOutputCardinality ∨ n = c.inputs.length ∧ n = c.getOutputCardinality) :
    Meets (fun cube ↦ c.Assumes cube (· ≤ n)) fail (c.assumeLEq n) := by
  unfold assumeLEq
  rw [hle, Bool.not_true, if_neg Bool.false_ne_true]
  split
  · next hall =>
    refine ⟨fun τ _ _ _ ↦ ?_, fun τ _ _ ↦ satCube_nil, fun lit hl ↦ absurd hl List.not_mem_nil⟩
    rw [hall.1]
    exact List.countP_le_length
  · next hall =>
    have hlt : n < c.getOutputCardinality := hn.resolve_right hall
    rw [if_neg (Nat.not_le.mpr hlt)]
    refine (collect_meets hcnf hids _ _).imp fun cube hcube ↦ ?_
    refine ⟨fun τ hτ _ hc ↦ ?_, fun τ hτ hcount lit hl ↦ ?_, fun lit hl ↦ ?_⟩
    · obtain ⟨y, hy⟩ : ∃ y, c.outputs[n]? = some y := ⟨_, List.getElem?_eq_getElem (by omega)⟩
      have hv := hc (negate y) ((hcube _).mpr ⟨n, y, hy, by simp, rfl⟩)
      rw [litVal_negate, Bool.not_eq_true'] at hv
      by_contra hgt
      have htrue := hτ hle n y hy (by omega)
      rw [hv] at htrue
      exact Bool.false_ne_true htrue
    · obtain ⟨i, y, hy, hk, rfl⟩ := (hcube lit).mp hl
      rw [decide_eq_true_eq] at hk
      rw [litVal_negate, Bool.not_eq_true', Bool.eq_false_iff]
      intro hv
      have hi := (hτ i y hy).mp hv
      omega
    · obtain ⟨i, y, hy, -, rfl⟩ := (hcube lit).mp hl
      exact ⟨y, List.mem_of_getElem? hy, strip_negate y⟩

theorem assumeEq_meets (hle : c.le = true) (hge : c.ge = true) (hcnf : c.cnfized = true)
    (hlen : c.outputs.length = c.getOutputCardinality)
    (hids : ∀ y ∈ c.outputs, 2 ^ 32 ≤ y → fail .narrowed) {n : ℕ}
    (hn : n < c.getOutputCardinality) :
    Meets (fun cube ↦ c.Assumes cube (· = n)) fail (c.assumeEq n) := by
  unfold assumeEq
  rw [hle, hge, Bool.not_true, Bool.or_false, if_neg Bool.false_ne_true, if_neg (by omega),
    if_neg (by omega), hcnf, ensure_true, ok_bind]
  refine (mapM_toUnsigned_meets hids).bind fun lits hlits ↦ ?_
  subst hlits
  have hcube : ∀ lit, lit ∈ (c.outputs.zipIdx.map fun (y, i) ↦ if n > 0 ∧ i ≤ n - 1 then y else negate y) ↔
      ∃ i y, c.outputs[i]? = some y ∧ lit = if i < n then y else negate y := by
    intro lit
    rw [List.mem_map]
    constructor
    · intro hl
      obtain ⟨⟨y, i⟩, hmem, rfl⟩ := hl
      refine ⟨i, y, List.mem_zipIdx_iff_getElem?.mp hmem, if_congr ?_ rfl rfl⟩
      omega
    · intro hl
      obtain ⟨i, y, hy, rfl⟩ := hl
      refine ⟨(y, i), List.mem_zipIdx_iff_getElem?.mpr hy, if_congr ?_ rfl rfl⟩
      omega
  refine ⟨fun τ hτ hτ' hc ↦ ?_, fun τ hτ hcount lit hl ↦ ?_, fun lit hl ↦ ?_⟩
  · obtain ⟨y, hy⟩ : ∃ y, c.outputs[n]? = some y := ⟨_, List.getElem?_eq_getElem (by omega)⟩
    have hv := hc (negate y) ((hcube _).mpr ⟨n, y, hy, by rw [if_neg (Nat.lt_irrefl n)]⟩)
    rw [litVal_negate, Bool.not_eq_true'] at hv
    have hupper : trueCount τ c.inputs ≤ n := by
      by_contra hgt
      have htrue := hτ hle n y hy (by omega)
      rw [hv] at htrue
      exact Bool.false_ne_true htrue
    by_contra hne
    obtain ⟨z, hz⟩ : ∃ z, c.outputs[n - 1]? = some z := ⟨_, List.getElem?_eq_getElem (by omega)⟩
    have hlower := hτ' hge (n - 1) z hz (hc z ((hcube _).mpr ⟨n - 1, z, hz, by rw [if_pos (by omega)]⟩))
    omega
  · obtain ⟨i, y, hy, rfl⟩ := (hcube lit).mp hl
    split
    · exact (hτ i y hy).mpr (by omega)
    · rw [litVal_negate, Bool.not_eq_true', Bool.eq_false_iff]
      intro hv
      have hi := (hτ i y hy).mp hv
      omega
  · obtain ⟨i, y, hy, rfl⟩ := (hcube lit).mp hl
    refine ⟨y, List.mem_of_getElem? hy, ?_⟩
    split
    · rfl
    · exact strip_negate y

end SortingConstraint

theorem Counts.exists_extension {vm vm' : VariableManager} {inputs outputs : List ℕ} {m : ℕ}
    {le ge : Bool} {cnf : ClauseVec} (h : Counts vm vm' inputs m le ge outputs cnf)
    (hins : ∀ x ∈ inputs, strip x < vm.nextID) (σ : Assignment) :
    ∃ τ, (∀ v, ¬ (vm.nextID ≤ v ∧ v < vm'.nextID) → τ v = σ v) ∧ satClauses τ cnf ∧
      ∀ i y, outputs[i]? = some y → (litVal τ y = true ↔ i < trueCount τ inputs) := by
  classical
  obtain ⟨ρ, hρ, hcnf, houts⟩ := h.extension σ
  let τ : Assignment := fun v ↦ if vm.nextID ≤ v ∧ v < vm'.nextID then ρ v else σ v
  have hnew : ∀ v, vm.nextID ≤ v ∧ v < vm'.nextID → τ v = ρ v := fun v hv ↦ if_pos hv
  have hold : ∀ v, ¬ (vm.nextID ≤ v ∧ v < vm'.nextID) → τ v = σ v := fun v hv ↦ if_neg hv
  have hin : ∀ x ∈ inputs, τ (strip x) = ρ (strip x) := by
    intro x hx
    have hlt := hins x hx
    rw [hold _ (by omega), hρ _ (.inl hlt)]
  have hcount : trueCount τ inputs = trueCount σ inputs := by
    apply trueCount_congr
    intro x hx
    have hlt := hins x hx
    exact hold (strip x) (by omega)
  refine ⟨τ, hold, (satClauses_congr fun v hv ↦ ?_).mpr hcnf, fun i y hy ↦ ?_⟩
  · obtain ⟨x, hx, rfl⟩ | hv := h.vars v hv
    · exact hin x hx
    · exact hnew v hv
  · have hv : litVal τ y = litVal ρ y := by
      apply litVal_congr
      obtain hy' | hy' := h.wires y (List.mem_of_getElem? hy)
      · exact hin y hy'
      · exact hnew _ hy'
    rw [hv, hcount]
    exact houts i y hy

end PME
