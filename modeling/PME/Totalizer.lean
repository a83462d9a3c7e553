import PME.CardinalityNetwork
import PME.Lib.Unary

namespace PME

open Outcome Unary

/-- A leaf holds an input, which is not `ID_NULL` and is its only output. A leaf is clean even
with its output marked dirty, so only the other nodes keep the marks. -/
inductive TotalizerTree
  | leaf (input : ℕ)
  | node (left right : TotalizerTree) (outputs : List ℕ) (dirty : Finset ℕ)
deriving DecidableEq

namespace TotalizerTree

def outputs : TotalizerTree → List ℕ
  | leaf input => [input]
  | node _ _ outputs _ => outputs

def outputSize (t : TotalizerTree) : ℕ := t.outputs.length

def inputSize : TotalizerTree → ℕ
  | leaf _ => 1
  | node left right _ _ => left.outputSize + right.outputSize

def isClean : TotalizerTree → Bool
  | leaf _ => true
  | node _ _ _ dirty => decide (dirty = ∅)

def markClean : TotalizerTree → TotalizerTree
  | leaf input => leaf input
  | node left right outputs _ => node left right outputs ∅

def clearIncrementality : TotalizerTree → TotalizerTree
  | leaf input => leaf input
  | node left right outputs _ =>
    node left.clearIncrementality right.clearIncrementality outputs outputs.toFinset

def addOutputs : ℕ → VariableManager → List ℕ → Finset ℕ →
    Result (VariableManager × List ℕ × Finset ℕ)
  | 0, vm, outputs, dirty => return (vm, outputs, dirty)
  | n + 1, vm, outputs, dirty => do
    let (id, vm) ← vm.getNewID 0
    addOutputs n vm (outputs ++ [id]) (insert id dirty)

def increaseNodeCardinality (cardinality : ℕ) (vm : VariableManager) :
    TotalizerTree → Result (VariableManager × TotalizerTree)
  | leaf input => return (vm, leaf input)
  | node left right outputs dirty => do
    let (vm, left) ← left.increaseNodeCardinality cardinality vm
    let (vm, right) ← right.increaseNodeCardinality cardinality vm
    let target := min cardinality (node left right outputs dirty).inputSize
    let (vm, outputs, dirty) ← addOutputs (target - outputs.length) vm outputs dirty
    return (vm, node left right outputs dirty)

/-- The vectors of `toCNF`: the outputs of a node between the two constants. -/
def withConstants (outputs : List ℕ) : List ℕ := idTrue :: (outputs ++ [idFalse])

/-- The body of the two loops of `toCNF`. The indices are always in range. -/
def pairClauses (aVec bVec rVec : List ℕ) (alpha beta : ℕ) : ClauseVec :=
  let a0 := aVec.getD alpha idNull
  let a1 := aVec.getD (alpha + 1) idNull
  let b0 := bVec.getD beta idNull
  let b1 := bVec.getD (beta + 1) idNull
  let theta := alpha + beta
  if theta + 1 ≥ rVec.length then [] else
  let r0 := rVec.getD theta idNull
  let r1 := rVec.getD (theta + 1) idNull
  (if a0 ≠ idFalse ∧ b0 ≠ idFalse ∧ r0 ≠ idTrue then [[negate a0, negate b0, r0]] else []) ++
    if a1 ≠ idTrue ∧ b1 ≠ idTrue ∧ r1 ≠ idFalse then [[a1, b1, negate r1]] else []

def nodeClauses (a b r : List ℕ) : ClauseVec :=
  let aVec := withConstants a
  let bVec := withConstants b
  let rVec := withConstants r
  (List.range (aVec.length - 1)).flatMap fun alpha ↦
    (List.range (bVec.length - 1)).flatMap fun beta ↦ pairClauses aVec bVec rVec alpha beta

def isDirtyClause (cls : Clause) (dirty : Finset ℕ) : Bool :=
  cls.any fun id ↦ decide (strip id ∈ dirty)

def toCNF : TotalizerTree → Result (TotalizerTree × ClauseVec)
  | leaf input => return (leaf input, [])
  | node left right outputs dirty =>
    if dirty = ∅ then do
      ensure left.isClean
      ensure right.isClean
      return (node left right outputs dirty, [])
    else do
      let (left, lcnf) ← left.toCNF
      let (right, rcnf) ← right.toCNF
      let cnf := (nodeClauses left.outputs right.outputs outputs).filter (isDirtyClause · dirty)
      return ((node left right outputs dirty).markClean, lcnf ++ rcnf ++ cnf)

def leaves : TotalizerTree → List ℕ
  | leaf input => [input]
  | node left right _ _ => left.leaves ++ right.leaves

def made : TotalizerTree → List ℕ
  | leaf _ => []
  | node left right outputs _ => left.made ++ right.made ++ outputs

def fullCNF : TotalizerTree → ClauseVec
  | leaf _ => []
  | node left right outputs _ =>
    left.fullCNF ++ right.fullCNF ++ nodeClauses left.outputs right.outputs outputs

def Filled (cardinality : ℕ) : TotalizerTree → Prop
  | leaf _ => True
  | node left right outputs _ => left.Filled cardinality ∧ right.Filled cardinality ∧
    outputs.length = min cardinality (left.outputSize + right.outputSize)

structure Proper (t : TotalizerTree) : Prop where
  leaves : t.leaves.Nodup
  made : t.made.Nodup
  fresh : ∀ v ∈ t.made, minId ≤ v ∧ v % 2 = 0
  apart : ∀ x ∈ t.leaves, strip x ∉ t.made

def entry (l : List ℕ) (i : ℕ) : ℕ := (withConstants l).getD i idNull

def bit (σ : Assignment) (outputs : List ℕ) (i : ℕ) : Prop := litVal σ (entry outputs i) = true

def lower (a b r : List ℕ) (i j : ℕ) : Clause :=
  [negate (entry a i), negate (entry b j), entry r (i + j)]

def upper (a b r : List ℕ) (i j : ℕ) : Clause :=
  [entry a (i + 1), entry b (j + 1), negate (entry r (i + j + 1))]

variable {σ τ : Assignment} {a b r : List ℕ} {cardinality : ℕ} {t left right : TotalizerTree}
  {outputs : List ℕ} {dirty : Finset ℕ}

@[simp] theorem length_withConstants (l : List ℕ) : (withConstants l).length = l.length + 2 := by
  simp [withConstants]

theorem entry_succ {l : List ℕ} {i : ℕ} (hi : i < l.length) :
    entry l (i + 1) = l[i] := by
  simp [entry, withConstants, List.getD_eq_getElem?_getD, List.getElem?_append_left hi, hi]

theorem entry_top (l : List ℕ) :
    entry l (l.length + 1) = idFalse := by
  simp [entry, withConstants]

theorem bit_zero (hσ : σ idFalse = false) (l : List ℕ) : bit σ l 0 := by
  change litVal σ idTrue = true
  simp [hσ]

theorem not_bit_top (hσ : σ idFalse = false) (l : List ℕ) : ¬ bit σ l (l.length + 1) := by
  unfold bit
  rw [entry_top, litVal_idFalse, hσ]
  exact Bool.false_ne_true

theorem bit_succ {l : List ℕ} {i : ℕ} (hi : i < l.length) :
    bit σ l (i + 1) ↔ litVal σ l[i] = true := by
  simp only [bit, entry_succ hi]

/-- The bits show a number just when every output says whether the number is above its place. -/
theorem shows_bit_iff (hσ : σ idFalse = false) {l : List ℕ} {p : ℕ} :
    Shows l.length (bit σ l) p ↔ ∀ i y, l[i]? = some y → (litVal σ y = true ↔ i < p) := by
  constructor
  · intro h i y hy
    obtain ⟨hi, rfl⟩ := List.getElem?_eq_some_iff.mp hy
    exact (bit_succ hi).symm.trans (h (i + 1) hi)
  · intro h i hi
    cases i with
    | zero => exact ⟨fun _ ↦ p.zero_le, fun _ ↦ bit_zero hσ l⟩
    | succ i => exact (bit_succ hi).trans (h i _ (List.getElem?_eq_getElem hi))

theorem satClauses_ite {p : Prop} [Decidable p] {cls : Clause} (h : ¬ p → satClause σ cls) :
    satClauses σ (if p then [cls] else []) ↔ satClause σ cls := by
  split
  · simp
  · exact ⟨fun _ ↦ h ‹_›, fun _ ↦ satClauses_nil⟩

theorem satClauses_pairClauses (hσ : σ idFalse = false) (i j : ℕ) :
    satClauses σ (pairClauses (withConstants a) (withConstants b) (withConstants r) i j) ↔
      (i + j ≤ r.length → bit σ a i → bit σ b j → bit σ r (i + j)) ∧
      (i + j + 1 ≤ r.length → bit σ r (i + j + 1) → bit σ a (i + 1) ∨ bit σ b (j + 1)) := by
  unfold pairClauses
  dsimp only
  by_cases hk : i + j ≤ r.length
  · rw [if_neg (by simp; omega), satClauses_append, satClauses_ite, satClauses_ite]
    · have hlast : i + j + 1 ≤ r.length ∨ ¬ bit σ r (i + j + 1) := by
        by_cases hlt : i + j + 1 ≤ r.length
        · exact .inl hlt
        · obtain heq : i + j = r.length := by omega
          exact .inr (heq ▸ not_bit_top hσ r)
      simp only [satClause_cons, litVal_negate, not_satClause_nil, or_false, bit, entry] at hlast ⊢
      simp only [Bool.not_eq_true'] at *
      grind
    · intro hno
      simp only [satClause_cons, litVal_negate, not_satClause_nil, or_false]
      have hT : litVal σ idTrue = true := by simp [hσ]
      have hF : litVal σ idFalse = false := by simp [hσ]
      grind
    · intro hno
      simp only [satClause_cons, litVal_negate, not_satClause_nil, or_false]
      have hT : litVal σ idTrue = true := by simp [hσ]
      have hF : litVal σ idFalse = false := by simp [hσ]
      grind
  · rw [if_pos (by simp; omega)]
    simp only [satClauses_nil, true_iff]
    exact ⟨fun h ↦ absurd h hk, fun h ↦ absurd h (by omega)⟩

/-- The clauses of a node say that its outputs add up those of its children. -/
theorem satClauses_nodeClauses (hσ : σ idFalse = false) :
    satClauses σ (nodeClauses a b r) ↔
      Adds a.length b.length r.length (bit σ a) (bit σ b) (bit σ r) := by
  simp only [nodeClauses, satClauses_flatMap, List.mem_range, satClauses_pairClauses hσ,
    length_withConstants]
  constructor
  · intro h
    constructor
    · intro i hi j hj hk
      exact (h i (by omega) j (by omega)).1 hk
    · intro i hi j hj hk
      exact (h i (by omega) j (by omega)).2 hk
  · intro h i hi j hj
    exact ⟨h.up i (by omega) j (by omega), h.down i (by omega) j (by omega)⟩

/-- A node has an output for every input below it, or as many as the cardinality. -/
theorem Filled.outputSize (h : t.Filled cardinality) : t.outputSize ≤ t.leaves.length ∧
    (t.outputSize = t.leaves.length ∨ cardinality ≤ t.outputSize) := by
  induction t with
  | leaf input => exact ⟨le_rfl, .inl rfl⟩
  | node left right outputs dirty ihl ihr =>
    obtain ⟨hl, hr, hlen⟩ := h
    have ihl := ihl hl
    have ihr := ihr hr
    simp only [TotalizerTree.outputSize, TotalizerTree.outputs, TotalizerTree.leaves,
      List.length_append] at hlen ihl ihr ⊢
    omega

theorem trueCount_append (l l' : List ℕ) :
    trueCount σ (l ++ l') = trueCount σ l + trueCount σ l' := List.countP_append

theorem trueCount_le_length (l : List ℕ) : trueCount σ l ≤ l.length := List.countP_le_length

theorem shows_leaf (hσ : σ idFalse = false) (x : ℕ) :
    Shows 1 (bit σ [x]) (trueCount σ [x]) := by
  apply (shows_bit_iff (l := [x]) hσ).mpr
  intro i y hy
  obtain ⟨hi, rfl⟩ := List.getElem?_eq_some_iff.mp hy
  obtain rfl : i = 0 := by
    rw [List.length_singleton] at hi
    omega
  cases hx : litVal σ x with
  | true => simp [trueCount, hx]
  | false => simp [trueCount, hx]

/-- Where the outputs of a node end before its children's do, the children's numbers still
fit where they count. -/
theorem Filled.fits (h : (node left right outputs dirty).Filled cardinality) :
    (trueCount σ left.leaves ≤ left.outputSize ∨ outputs.length ≤ left.outputSize) ∧
    (trueCount σ right.leaves ≤ right.outputSize ∨ outputs.length ≤ right.outputSize) ∧
    outputs.length ≤ left.outputSize + right.outputSize := by
  obtain ⟨hl, hr, hlen⟩ := h
  have hleft := hl.outputSize
  have hright := hr.outputSize
  have hcl : trueCount σ left.leaves ≤ left.leaves.length := trueCount_le_length _
  have hcr : trueCount σ right.leaves ≤ right.leaves.length := trueCount_le_length _
  omega

theorem fullCNF_shows (hσ : σ idFalse = false) (hf : t.Filled cardinality)
    (hs : satClauses σ t.fullCNF) :
    Shows t.outputSize (bit σ t.outputs) (trueCount σ t.leaves) := by
  induction t with
  | leaf input => exact shows_leaf hσ input
  | node left right outputs dirty ihl ihr =>
    simp only [fullCNF, satClauses_append] at hs
    obtain ⟨⟨hsl, hsr⟩, hnode⟩ := hs
    have hadds := (satClauses_nodeClauses hσ).mp hnode
    obtain ⟨hp, hq, hk⟩ := hf.fits (σ := σ)
    simp only [TotalizerTree.leaves, trueCount_append]
    exact hadds.shows (ihl hf.1 hsl) (ihr hf.2.1 hsr) (not_bit_top hσ _) (not_bit_top hσ _)
      hp hq hk

theorem entry_of_le {l : List ℕ} {i : ℕ} (hi : i ≤ l.length) :
    i = 0 ∧ entry l i = idTrue ∨ 0 < i ∧ entry l i ∈ l := by
  cases i with
  | zero => exact .inl ⟨rfl, rfl⟩
  | succ i => exact .inr ⟨i.succ_pos, entry_succ hi ▸ List.getElem_mem hi⟩

theorem entry_succ_of_le {l : List ℕ} {i : ℕ} (hi : i ≤ l.length) :
    i = l.length ∧ entry l (i + 1) = idFalse ∨ i < l.length ∧ entry l (i + 1) ∈ l := by
  obtain hlt | rfl := Nat.lt_or_eq_of_le hi
  · exact .inr ⟨hlt, entry_succ hlt ▸ List.getElem_mem hlt⟩
  · exact .inl ⟨rfl, entry_top l⟩

theorem entry_ne_idTrue (hr : ∀ y ∈ r, minId ≤ y) {m : ℕ} (hm : m ≤ r.length) :
    entry r m ≠ idTrue ↔ 0 < m := by
  obtain ⟨rfl, he⟩ | ⟨hpos, he⟩ := entry_of_le hm
  · simp [he]
  · have hge := hr _ he
    simp only [hpos, iff_true, idTrue_eq, minId_eq] at hge ⊢
    omega

theorem entry_ne_idFalse (hr : ∀ y ∈ r, minId ≤ y) {m : ℕ} (hm : m ≤ r.length) :
    entry r (m + 1) ≠ idFalse ↔ m + 1 ≤ r.length := by
  obtain ⟨rfl, he⟩ | ⟨hlt, he⟩ := entry_succ_of_le hm
  · simp [he]
  · have hge := hr _ he
    simp only [idFalse, minId_eq] at hge ⊢
    omega

theorem mem_ite_singleton {p : Prop} [Decidable p] {cls cls' : Clause} :
    cls ∈ (if p then [cls'] else []) ↔ p ∧ cls = cls' := by
  split <;> simp [*]

/-- A pair of bits gives at most one clause for each direction, and each is about one output of
the node. -/
theorem mem_pairClauses (hr : ∀ y ∈ r, minId ≤ y) {i j : ℕ} {cls : Clause} :
    cls ∈ pairClauses (withConstants a) (withConstants b) (withConstants r) i j ↔
      (0 < i + j ∧ i + j ≤ r.length ∧ cls = lower a b r i j ∧
        entry a i ≠ idFalse ∧ entry b j ≠ idFalse) ∨
      i + j + 1 ≤ r.length ∧ cls = upper a b r i j ∧
        entry a (i + 1) ≠ idTrue ∧ entry b (j + 1) ≠ idTrue := by
  by_cases hk : i + j ≤ r.length
  · have hT := entry_ne_idTrue hr hk
    have hF := entry_ne_idFalse hr hk
    unfold entry at hT hF
    unfold pairClauses lower upper entry
    dsimp only
    rw [if_neg (by simp; omega), List.mem_append, mem_ite_singleton, mem_ite_singleton, hT, hF]
    tauto
  · unfold pairClauses
    dsimp only
    rw [if_pos (by simp; omega)]
    simp only [List.not_mem_nil, false_iff]
    omega

theorem mem_nodeClauses (hr : ∀ y ∈ r, minId ≤ y) {cls : Clause} : cls ∈ nodeClauses a b r ↔
    ∃ i ≤ a.length, ∃ j ≤ b.length,
      (0 < i + j ∧ i + j ≤ r.length ∧ cls = lower a b r i j ∧
        entry a i ≠ idFalse ∧ entry b j ≠ idFalse) ∨
      i + j + 1 ≤ r.length ∧ cls = upper a b r i j ∧
        entry a (i + 1) ≠ idTrue ∧ entry b (j + 1) ≠ idTrue := by
  simp only [nodeClauses, List.mem_flatMap, List.mem_range, length_withConstants,
    mem_pairClauses hr, Nat.lt_succ_iff, Nat.add_succ_sub_one]

end TotalizerTree

structure TotalizerCardinalityConstraint where
  root : Option TotalizerTree
  cardinality : ℕ
  outputs : List ℕ
  inputs : List ℕ
deriving DecidableEq

namespace TotalizerCardinalityConstraint

def new : TotalizerCardinalityConstraint := ⟨none, 0, [], []⟩

def getOutputCardinality (c : TotalizerCardinalityConstraint) : ℕ :=
  match c.root with
  | some root => root.outputSize
  | none => 0

def updateCachedOutputs (c : TotalizerCardinalityConstraint) : TotalizerCardinalityConstraint :=
  { c with outputs := match c.root with
      | some root => root.outputs
      | none => [] }

def setCardinality (c : TotalizerCardinalityConstraint) (vm : VariableManager) (n : ℕ) :
    Result (VariableManager × TotalizerCardinalityConstraint) :=
  if n ≤ c.cardinality then return (vm, c) else
  match c.root with
  | none => return (vm, { c with cardinality := n })
  | some root => do
    let (vm, root) ← root.increaseNodeCardinality n vm
    return (vm, { c with cardinality := n, root := some root }.updateCachedOutputs)

def addInput (c : TotalizerCardinalityConstraint) (vm : VariableManager) (id : ℕ) :
    Result (VariableManager × TotalizerCardinalityConstraint) :=
  let c := { c with inputs := c.inputs ++ [id] }
  match c.root with
  | some root => do
    let target := min c.cardinality (TotalizerTree.node root (.leaf id) [] ∅).inputSize
    let (vm, outputs, dirty) ← TotalizerTree.addOutputs target vm [] ∅
    return (vm, { c with root := some (.node root (.leaf id) outputs dirty) }.updateCachedOutputs)
  | none => return (vm, { c with root := some (.leaf id) }.updateCachedOutputs)

def incrementalCNFize (c : TotalizerCardinalityConstraint) :
    Result (TotalizerCardinalityConstraint × ClauseVec) :=
  match c.root with
  | some root => do
    let (root, cnf) ← root.toCNF
    return ({ c with root := some root }, cnf)
  | none => throw .assertion

def CNFize (c : TotalizerCardinalityConstraint) :
    Result (TotalizerCardinalityConstraint × ClauseVec) :=
  { c with root := c.root.map TotalizerTree.clearIncrementality }.incrementalCNFize

end TotalizerCardinalityConstraint

end PME
