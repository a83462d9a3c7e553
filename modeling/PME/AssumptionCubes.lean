import PME.TotalizerRun
import PME.CardinalityConstraint

namespace PME

open Outcome TotalizerTree Comparator

/-- What the functions of the base class ask of a constraint. Its counts are `unsigned`. -/
structure CardinalityConstraint where
  inputs : List ℕ
  outputs : Result (List ℕ)
  getInputCardinality : ℕ
  getOutputCardinality : ℕ

namespace CardinalityConstraint

/-- The loop of the functions below. It reads every output into an `unsigned`. -/
def collect (c : CardinalityConstraint) (f : ℕ → ℕ → Option ℕ) : Result Cube := do
  let outputs ← c.outputs
  return outputs.zipIdx.filterMap fun (y, i) ↦ f i (y % 2 ^ 32)

def assumeEq (c : CardinalityConstraint) (n : ℕ) : Result Cube :=
  if n = c.getInputCardinality ∧ n = c.getOutputCardinality then return c.inputs else
  if n ≥ c.getOutputCardinality then throw .exception else
  c.collect fun i lit ↦ if n > 0 ∧ i ≤ n - 1 then some lit else some (negate lit)

def assumeLEq (c : CardinalityConstraint) (n : ℕ) : Result Cube :=
  if n = c.getInputCardinality ∧ n = c.getOutputCardinality then return [] else
  if n ≥ c.getOutputCardinality then throw .exception else
  c.collect fun i lit ↦ if i ≥ n then some (negate lit) else none

def assumeLT (c : CardinalityConstraint) (n : ℕ) : Result Cube :=
  if n = 0 then throw .exception else
  if n > c.getOutputCardinality then throw .exception else
  c.collect fun i lit ↦ if n > 0 ∧ i ≥ n - 1 then some (negate lit) else none

def assumeGEq (c : CardinalityConstraint) (n : ℕ) : Result Cube :=
  if n = c.getInputCardinality ∧ n = c.getOutputCardinality then return c.inputs else
  if n ≥ c.getOutputCardinality then throw .exception else
  c.collect fun i lit ↦ if n > 0 ∧ i ≤ n - 1 then some lit else none

def assumeGT (c : CardinalityConstraint) (n : ℕ) : Result Cube :=
  if n ≥ c.getOutputCardinality then throw .exception else
  c.collect fun i lit ↦ if i ≤ n then some lit else none

inductive Comparison
  | eq | leq | lt | geq | gt

def Comparison.holds : Comparison → ℕ → ℕ → Prop
  | eq, n, p => p = n
  | leq, n, p => p ≤ n
  | lt, n, p => p < n
  | geq, n, p => n ≤ p
  | gt, n, p => n < p

def Comparison.needsLE : Comparison → Bool
  | eq | leq | lt => true
  | geq | gt => false

def Comparison.needsGE : Comparison → Bool
  | eq | geq | gt => true
  | leq | lt => false

def assume (c : CardinalityConstraint) : Comparison → ℕ → Result Cube
  | .eq, n => c.assumeEq n
  | .leq, n => c.assumeLEq n
  | .lt, n => c.assumeLT n
  | .geq, n => c.assumeGEq n
  | .gt, n => c.assumeGT n

end CardinalityConstraint

open CardinalityConstraint

def TotalizerCardinalityConstraint.base (c : TotalizerCardinalityConstraint) :
    CardinalityConstraint where
  inputs := c.inputs
  outputs := return c.outputs
  getInputCardinality := c.inputs.length % 2 ^ 32
  getOutputCardinality := c.getOutputCardinality % 2 ^ 32

namespace SortingConstraint

def base (c : SortingConstraint) : CardinalityConstraint where
  inputs := c.inputs
  outputs := do
    ensure c.cnfized
    return c.outputs
  getInputCardinality := c.inputs.length % 2 ^ 32
  getOutputCardinality := c.getOutputCardinality % 2 ^ 32

/-- The functions of the class. Other than `assumeLT` and `assumeGT` above, which give up on an
ID that is no `unsigned`, they cut it off as the code does. -/
def Override.assumeEq (c : SortingConstraint) (n : ℕ) : Result Cube :=
  if !c.ge || !c.le then throw .exception else c.base.assumeEq n

def Override.assumeLEq (c : SortingConstraint) (n : ℕ) : Result Cube :=
  if !c.le then throw .exception else c.base.assumeLEq n

def Override.assumeLT (c : SortingConstraint) (n : ℕ) : Result Cube :=
  if !c.le then throw .exception else c.base.assumeLT n

def Override.assumeGEq (c : SortingConstraint) (n : ℕ) : Result Cube :=
  if !c.ge then throw .exception else c.base.assumeGEq n

def Override.assumeGT (c : SortingConstraint) (n : ℕ) : Result Cube :=
  if !c.ge then throw .exception else c.base.assumeGT n

def assume (c : SortingConstraint) : Comparison → ℕ → Result Cube
  | .eq, n => Override.assumeEq c n
  | .leq, n => Override.assumeLEq c n
  | .lt, n => Override.assumeLT c n
  | .geq, n => Override.assumeGEq c n
  | .gt, n => Override.assumeGT c n

/-- A comparison is refused where a direction of the count that it rests on is not encoded. -/
theorem assume_eq (c : SortingConstraint) (cmp : Comparison) (n : ℕ) : c.assume cmp n =
    if cmp.needsGE && !c.ge || cmp.needsLE && !c.le then throw .exception
    else c.base.assume cmp n := by
  cases cmp with
  | eq => rfl
  | leq => simp [assume, Override.assumeLEq, Comparison.needsGE, Comparison.needsLE,
      CardinalityConstraint.assume]
  | lt => simp [assume, Override.assumeLT, Comparison.needsGE, Comparison.needsLE,
      CardinalityConstraint.assume]
  | geq => simp [assume, Override.assumeGEq, Comparison.needsGE, Comparison.needsLE,
      CardinalityConstraint.assume]
  | gt => simp [assume, Override.assumeGT, Comparison.needsGE, Comparison.needsLE,
      CardinalityConstraint.assume]

end SortingConstraint

def Means (inputs : List ℕ) (cnf : ClauseVec) (cube : Cube) (p : ℕ → Prop) : Prop :=
  ∀ σ : Assignment, σ idFalse = false → ((∃ τ : Assignment, τ idFalse = false ∧
    (∀ x ∈ inputs, litVal τ x = litVal σ x) ∧ satClauses τ cnf ∧ satCube τ cube) ↔
      p (trueCount σ inputs))

def AllMean (inputs : List ℕ) (cnf : ClauseVec) (assume : Comparison → ℕ → Result Cube) : Prop :=
  ∀ cmp n cube, assume cmp n = .ok cube → Means inputs cnf cube (cmp.holds n)

/-- Outputs that count the inputs, each an `unsigned`. -/
structure Readable (c : CardinalityConstraint) (outs : List ℕ) (cnf : ClauseVec) (le ge : Bool) :
    Prop where
  outputs : c.outputs = .ok outs
  inputCardinality : c.getInputCardinality = c.inputs.length
  outputCardinality : c.getOutputCardinality = outs.length
  length_le : outs.length ≤ c.inputs.length
  lt : ∀ y ∈ outs, y < 2 ^ 32
  extension : ∀ σ : Assignment, σ idFalse = false → ∃ τ : Assignment, τ idFalse = false ∧
    (∀ x ∈ c.inputs, litVal τ x = litVal σ x) ∧ satClauses τ cnf ∧
    ∀ i y, outs[i]? = some y → (litVal τ y = true ↔ i < trueCount τ c.inputs)
  atLeast : le = true → ∀ τ : Assignment, τ idFalse = false → satClauses τ cnf →
    ∀ i y, outs[i]? = some y → i < trueCount τ c.inputs → litVal τ y = true
  atMost : ge = true → ∀ τ : Assignment, τ idFalse = false → satClauses τ cnf →
    ∀ i y, outs[i]? = some y → litVal τ y = true → i < trueCount τ c.inputs

variable {c : CardinalityConstraint} {outs inputs : List ℕ} {cnf : ClauseVec} {le ge : Bool}
  {n : ℕ} {cube : Cube} {p : ℕ → Prop}

theorem trueCount_of_litVal {σ τ : Assignment} (h : ∀ x ∈ inputs, litVal τ x = litVal σ x) :
    trueCount τ inputs = trueCount σ inputs :=
  trueCount_congr fun x hx ↦ litVal_eq_iff.mp (h x hx)

namespace Readable

variable (h : Readable c outs cnf le ge)
include h

/-- A cube is right when the count follows from it in every model, and it holds in the models
where the outputs are exact. -/
theorem means (hsound : ∀ τ : Assignment, τ idFalse = false → satClauses τ cnf → satCube τ cube →
      p (trueCount τ c.inputs))
    (hcomplete : ∀ τ : Assignment,
      (∀ i y, outs[i]? = some y → (litVal τ y = true ↔ i < trueCount τ c.inputs)) →
      p (trueCount τ c.inputs) → satCube τ cube) : Means c.inputs cnf cube p := by
  intro σ hσ
  constructor
  · intro hex
    obtain ⟨τ, hF, hin, hcnf, hcube⟩ := hex
    exact trueCount_of_litVal hin ▸ hsound τ hF hcnf hcube
  · intro hp
    obtain ⟨τ, hF, hin, hcnf, hexact⟩ := h.extension σ hσ
    exact ⟨τ, hF, hin, hcnf, hcomplete τ hexact (trueCount_of_litVal hin ▸ hp)⟩

theorem collect_eq (f : ℕ → ℕ → Option ℕ) : ∃ cube, c.collect f = .ok cube ∧
    ∀ lit, lit ∈ cube ↔ ∃ i y, outs[i]? = some y ∧ f i y = some lit := by
  unfold collect
  rw [h.outputs]
  refine ⟨_, rfl, fun lit ↦ ?_⟩
  rw [List.mem_filterMap]
  constructor
  · intro hl
    obtain ⟨⟨y, i⟩, hmem, hf⟩ := hl
    rw [List.mem_zipIdx_iff_getElem?] at hmem
    dsimp only at hf
    rw [Nat.mod_eq_of_lt (h.lt y (List.mem_of_getElem? hmem))] at hf
    exact ⟨i, y, hmem, hf⟩
  · intro hl
    obtain ⟨i, y, hy, hf⟩ := hl
    refine ⟨(y, i), List.mem_zipIdx_iff_getElem?.mpr hy, ?_⟩
    dsimp only
    rw [Nat.mod_eq_of_lt (h.lt y (List.mem_of_getElem? hy))]
    exact hf

theorem means_inputs (hn : n = c.inputs.length) (hp : ∀ m ≤ n, p m ↔ m = n) :
    Means c.inputs cnf c.inputs p := by
  have hall : ∀ τ : Assignment, satCube τ c.inputs ↔ trueCount τ c.inputs = n := by
    intro τ
    rw [trueCount, hn, List.countP_eq_length]
    rfl
  have hle : ∀ τ : Assignment, trueCount τ c.inputs ≤ n := fun τ ↦ hn ▸ List.countP_le_length
  refine h.means (fun τ _ _ hcube ↦ ?_) fun τ _ hcount ↦ ?_
  · exact (hp _ (hle τ)).mpr ((hall τ).mp hcube)
  · exact (hall τ).mpr ((hp _ (hle τ)).mp hcount)

/-- An output assumed false bounds the count from above, and one assumed true from below. -/
theorem count_le (hle : le = true) {τ : Assignment} (hF : τ idFalse = false)
    (hcnf : satClauses τ cnf) (hcube : satCube τ cube) {i y : ℕ} (hy : outs[i]? = some y)
    (hmem : negate y ∈ cube) : trueCount τ c.inputs ≤ i := by
  by_contra hgt
  have hv := hcube _ hmem
  rw [litVal_negate, h.atLeast hle τ hF hcnf i y hy (by omega)] at hv
  exact Bool.false_ne_true hv

theorem lt_count (hge : ge = true) {τ : Assignment} (hF : τ idFalse = false)
    (hcnf : satClauses τ cnf) (hcube : satCube τ cube) {i y : ℕ} (hy : outs[i]? = some y)
    (hmem : y ∈ cube) : i < trueCount τ c.inputs :=
  h.atMost hge τ hF hcnf i y hy (hcube _ hmem)

theorem getOutputCardinality_iff (hn : n = c.getInputCardinality ∧ n = c.getOutputCardinality) :
    n = c.inputs.length := hn.1.trans h.inputCardinality

theorem assumeEq_means (hle : le = true) (hge : ge = true) (hok : c.assumeEq n = .ok cube) :
    Means c.inputs cnf cube (· = n) := by
  unfold assumeEq at hok
  split at hok
  · obtain rfl := Except.ok.inj hok
    exact h.means_inputs (h.getOutputCardinality_iff ‹_›) fun _ _ ↦ Iff.rfl
  · split at hok
    · exact nomatch hok
    · have hn : n < outs.length := by
        rw [h.outputCardinality] at *
        omega
      obtain ⟨cube', hcollect, hcube⟩ := h.collect_eq
        fun i lit ↦ if n > 0 ∧ i ≤ n - 1 then some lit else some (negate lit)
      obtain rfl := Except.ok.inj (hcollect.symm.trans hok)
      refine h.means (fun τ hF hcnf hsat ↦ ?_) fun τ hexact hcount lit hl ↦ ?_
      · have hy : outs[n]? = some outs[n] := List.getElem?_eq_getElem hn
        have hupper := h.count_le hle hF hcnf hsat hy
          ((hcube _).mpr ⟨n, _, hy, if_neg (by omega)⟩)
        by_contra hne
        have hpos : 0 < n := by omega
        obtain ⟨y', hy'⟩ : ∃ y', outs[n - 1]? = some y' :=
          ⟨_, List.getElem?_eq_getElem (by omega)⟩
        have hlower := h.lt_count hge hF hcnf hsat hy'
          ((hcube _).mpr ⟨n - 1, _, hy', if_pos ⟨hpos, le_rfl⟩⟩)
        omega
      · obtain ⟨i, y, hy, hf⟩ := (hcube lit).mp hl
        have hval := hexact i y hy
        split at hf
        · obtain rfl := Option.some_inj.mp hf
          exact hval.mpr (by omega)
        · obtain rfl := Option.some_inj.mp hf
          rw [litVal_negate, Bool.not_eq_true', Bool.eq_false_iff, ne_eq, hval]
          omega

theorem assumeLEq_means (hle : le = true) (hok : c.assumeLEq n = .ok cube) :
    Means c.inputs cnf cube (· ≤ n) := by
  unfold assumeLEq at hok
  split at hok
  · obtain rfl := Except.ok.inj hok
    have hn := h.getOutputCardinality_iff ‹_›
    refine h.means (fun τ _ _ _ ↦ ?_) fun τ _ _ ↦ satCube_nil
    exact hn ▸ List.countP_le_length
  · split at hok
    · exact nomatch hok
    · have hn : n < outs.length := by
        rw [h.outputCardinality] at *
        omega
      obtain ⟨cube', hcollect, hcube⟩ := h.collect_eq
        fun i lit ↦ if i ≥ n then some (negate lit) else none
      obtain rfl := Except.ok.inj (hcollect.symm.trans hok)
      refine h.means (fun τ hF hcnf hsat ↦ ?_) fun τ hexact hcount lit hl ↦ ?_
      · have hy : outs[n]? = some outs[n] := List.getElem?_eq_getElem hn
        exact h.count_le hle hF hcnf hsat hy ((hcube _).mpr ⟨n, _, hy, if_pos le_rfl⟩)
      · obtain ⟨i, y, hy, hf⟩ := (hcube lit).mp hl
        obtain ⟨hi, hf⟩ := Option.ite_none_right_eq_some.mp hf
        obtain rfl := Option.some_inj.mp hf
        rw [litVal_negate, Bool.not_eq_true', Bool.eq_false_iff, ne_eq, hexact i y hy]
        omega

theorem assumeLT_means (hle : le = true) (hok : c.assumeLT n = .ok cube) :
    Means c.inputs cnf cube (· < n) := by
  unfold assumeLT at hok
  split at hok
  · exact nomatch hok
  · split at hok
    · exact nomatch hok
    · have hn : n - 1 < outs.length := by
        rw [h.outputCardinality] at *
        omega
      obtain ⟨cube', hcollect, hcube⟩ := h.collect_eq
        fun i lit ↦ if n > 0 ∧ i ≥ n - 1 then some (negate lit) else none
      obtain rfl := Except.ok.inj (hcollect.symm.trans hok)
      refine h.means (fun τ hF hcnf hsat ↦ ?_) fun τ hexact hcount lit hl ↦ ?_
      · have hy : outs[n - 1]? = some outs[n - 1] := List.getElem?_eq_getElem hn
        have hle := h.count_le hle hF hcnf hsat hy
          ((hcube _).mpr ⟨n - 1, _, hy, if_pos ⟨by omega, le_rfl⟩⟩)
        omega
      · obtain ⟨i, y, hy, hf⟩ := (hcube lit).mp hl
        obtain ⟨hi, hf⟩ := Option.ite_none_right_eq_some.mp hf
        obtain rfl := Option.some_inj.mp hf
        rw [litVal_negate, Bool.not_eq_true', Bool.eq_false_iff, ne_eq, hexact i y hy]
        omega

theorem assumeGEq_means (hge : ge = true) (hok : c.assumeGEq n = .ok cube) :
    Means c.inputs cnf cube (n ≤ ·) := by
  unfold assumeGEq at hok
  split at hok
  · obtain rfl := Except.ok.inj hok
    exact h.means_inputs (h.getOutputCardinality_iff ‹_›) fun m hm ↦ by omega
  · split at hok
    · exact nomatch hok
    · have hn : n < outs.length := by
        rw [h.outputCardinality] at *
        omega
      obtain ⟨cube', hcollect, hcube⟩ := h.collect_eq
        fun i lit ↦ if n > 0 ∧ i ≤ n - 1 then some lit else none
      obtain rfl := Except.ok.inj (hcollect.symm.trans hok)
      refine h.means (fun τ hF hcnf hsat ↦ ?_) fun τ hexact hcount lit hl ↦ ?_
      · by_contra hlt
        have hpos : 0 < n := by omega
        obtain ⟨y, hy⟩ : ∃ y, outs[n - 1]? = some y := ⟨_, List.getElem?_eq_getElem (by omega)⟩
        have hlower := h.lt_count hge hF hcnf hsat hy
          ((hcube _).mpr ⟨n - 1, _, hy, if_pos ⟨hpos, le_rfl⟩⟩)
        omega
      · obtain ⟨i, y, hy, hf⟩ := (hcube lit).mp hl
        obtain ⟨hi, hf⟩ := Option.ite_none_right_eq_some.mp hf
        obtain rfl := Option.some_inj.mp hf
        exact (hexact i y hy).mpr (by omega)

theorem assumeGT_means (hge : ge = true) (hok : c.assumeGT n = .ok cube) :
    Means c.inputs cnf cube (n < ·) := by
  unfold assumeGT at hok
  split at hok
  · exact nomatch hok
  · have hn : n < outs.length := by
      rw [h.outputCardinality] at *
      omega
    obtain ⟨cube', hcollect, hcube⟩ := h.collect_eq fun i lit ↦ if i ≤ n then some lit else none
    obtain rfl := Except.ok.inj (hcollect.symm.trans hok)
    refine h.means (fun τ hF hcnf hsat ↦ ?_) fun τ hexact hcount lit hl ↦ ?_
    · have hy : outs[n]? = some outs[n] := List.getElem?_eq_getElem hn
      exact h.lt_count hge hF hcnf hsat hy ((hcube _).mpr ⟨n, _, hy, if_pos le_rfl⟩)
    · obtain ⟨i, y, hy, hf⟩ := (hcube lit).mp hl
      obtain ⟨hi, hf⟩ := Option.ite_none_right_eq_some.mp hf
      obtain rfl := Option.some_inj.mp hf
      exact (hexact i y hy).mpr (by omega)

theorem assume_means {cmp : Comparison} (hle : cmp.needsLE = true → le = true)
    (hge : cmp.needsGE = true → ge = true) (hok : c.assume cmp n = .ok cube) :
    Means c.inputs cnf cube (cmp.holds n) := by
  cases cmp with
  | eq => exact h.assumeEq_means (hle rfl) (hge rfl) hok
  | leq => exact h.assumeLEq_means (hle rfl) hok
  | lt => exact h.assumeLT_means (hle rfl) hok
  | geq => exact h.assumeGEq_means (hge rfl) hok
  | gt => exact h.assumeGT_means (hge rfl) hok

end Readable

section SingleInput

variable {x lit : ℕ}

theorem not_means_of_strip_ne (hne : strip lit ≠ strip x) (hx : strip x ≠ idFalse) (b : Bool)
    (hp : ∀ σ : Assignment, p (trueCount σ [x]) ↔ litVal σ x = b) : ¬ Means [x] [] [lit] p := by
  intro hmeans
  have hvalue : ∀ (v : ℕ) (l : ℕ) (σ : Assignment) (b : Bool), strip l = v →
      litVal (Function.update σ v (b ^^ isNegated l)) l = b := by
    intro v l σ b hv
    simp [litVal, hv]
  -- the input has the value that the cube is meant to exclude
  let σ : Assignment := Function.update (fun _ ↦ false) (strip x) (!b ^^ isNegated x)
  have hσF : σ idFalse = false := Function.update_of_ne hx.symm _ _
  have hσx : litVal σ x = !b := hvalue _ _ _ _ rfl
  have hno : ¬ ∃ τ : Assignment, τ idFalse = false ∧ (∀ y ∈ [x], litVal τ y = litVal σ y) ∧
      satClauses τ [] ∧ satCube τ [lit] := by
    rw [hmeans σ hσF, hp, hσx]
    exact Bool.not_ne_self b
  by_cases hF : strip lit = idFalse
  · let ρ : Assignment := Function.update (fun _ ↦ false) (strip x) (b ^^ isNegated x)
    have hρF : ρ idFalse = false := Function.update_of_ne hx.symm _ _
    have hρx : litVal ρ x = b := hvalue _ _ _ _ rfl
    obtain ⟨τ, hτF, -, -, hcube⟩ := (hmeans ρ hρF).mpr ((hp ρ).mpr hρx)
    refine hno ⟨σ, hσF, fun _ _ ↦ rfl, satClauses_nil, ?_⟩
    have heq : litVal σ lit = litVal τ lit := litVal_congr (by rw [hF, hσF, hτF])
    rw [satCube_cons, heq]
    exact ⟨hcube lit List.mem_cons_self, satCube_nil⟩
  · let τ : Assignment := Function.update σ (strip lit) (true ^^ isNegated lit)
    refine hno ⟨τ, ?_, fun y hy ↦ litVal_congr ?_, satClauses_nil, ?_⟩
    · exact (Function.update_of_ne (Ne.symm hF) _ _).trans hσF
    · rw [List.mem_singleton.mp hy]
      exact Function.update_of_ne hne.symm _ _
    · rw [satCube_cons]
      exact ⟨hvalue _ _ _ _ rfl, satCube_nil⟩

theorem trueCount_singleton (σ : Assignment) :
    (0 < trueCount σ [x] ↔ litVal σ x = true) ∧ (trueCount σ [x] < 1 ↔ litVal σ x = false) := by
  cases hx : litVal σ x with
  | true => simp [trueCount, hx]
  | false => simp [trueCount, hx]

/-- A constraint with one input has this input for its only output, and no clauses. What it
assumes is read off an input that is cut to 32 bits. -/
theorem lt_of_allMean (hin : c.outputs = .ok [x]) (hout : c.getOutputCardinality = 1)
    {assume : Comparison → ℕ → Result Cube}
    (hcmp : assume .gt 0 = c.assumeGT 0 ∨ assume .lt 1 = c.assumeLT 1) (h : AllMean [x] [] assume) : x < 2 ^ 32 := by
  by_contra hge
  have hlt : x % 2 ^ 32 < 2 ^ 32 := Nat.mod_lt _ (by norm_num)
  have hstrip : strip (x % 2 ^ 32) ≠ strip x := by
    rw [strip_eq, strip_eq]
    omega
  have hx : strip x ≠ idFalse := by
    rw [strip_eq]
    simp only [idFalse]
    omega
  obtain hgt | hlt' := hcmp
  · have hcube : assume .gt 0 = .ok [x % 2 ^ 32] := by
      rw [hgt, assumeGT, hout, if_neg (by omega), collect, hin]
      rfl
    exact not_means_of_strip_ne hstrip hx true (fun σ ↦ (trueCount_singleton σ).1) (h .gt 0 _ hcube)
  · have hcube : assume .lt 1 = .ok [negate (x % 2 ^ 32)] := by
      rw [hlt', assumeLT, hout, if_neg (by omega), if_neg (by omega), collect, hin]
      rfl
    refine not_means_of_strip_ne ?_ hx false (fun σ ↦ (trueCount_singleton σ).2) (h .lt 1 _ hcube)
    rwa [strip_negate]

end SingleInput

namespace TotalizerCardinalityConstraint

variable {s : Session} {t : TotalizerTree} {c' : TotalizerCardinalityConstraint}

theorem Kept.readable (h : Kept s t) (hc : c' = { s.constraint with root := some t.settled })
    (hperm : cnf.Perm t.fullCNF) (hlen : c'.inputs.length < 2 ^ 32)
    (hlt : ∀ y ∈ c'.outputs, y < 2 ^ 32) : Readable c'.base c'.outputs cnf true true := by
  subst hc
  have hsize := h.filled.outputSize
  have houts : t.settled.outputSize = s.constraint.outputs.length := by
    rw [outputSize, outputs_settled, h.outputs]
  have houts' : t.outputSize = s.constraint.outputs.length := by rw [outputSize, h.outputs]
  rw [h.leaves, houts'] at hsize
  dsimp only at hlen
  have hsat : ∀ τ : Assignment, satClauses τ cnf ↔ satClauses τ t.fullCNF := fun τ ↦
    forall_congr' fun cls ↦ by rw [hperm.mem_iff]
  have hcount : ∀ τ : Assignment, τ idFalse = false → satClauses τ cnf →
      ∀ i y, s.constraint.outputs[i]? = some y →
        (litVal τ y = true ↔ i < trueCount τ s.constraint.inputs) := by
    intro τ hτ hcnf i y hy
    have hshows := fullCNF_shows hτ h.filled ((hsat τ).mp hcnf)
    rw [h.leaves] at hshows
    exact (shows_bit_iff hτ).mp hshows i y (h.outputs ▸ hy)
  refine ⟨rfl, Nat.mod_eq_of_lt hlen, ?_, hsize.1, hlt, fun σ hσ ↦ ?_,
    fun _ τ hτ hcnf i y hy ↦ (hcount τ hτ hcnf i y hy).mpr,
    fun _ τ hτ hcnf i y hy ↦ (hcount τ hτ hcnf i y hy).mp⟩
  · change t.settled.outputSize % 2 ^ 32 = s.constraint.outputs.length
    rw [houts, Nat.mod_eq_of_lt (by omega)]
  · obtain ⟨τ, hτ, hmodel⟩ := fullCNF_extension h.proper h.filled hσ
    have hF : τ idFalse = false := (hτ _ h.proper.idFalse_not_mem).trans hσ
    have hcnf := (hsat τ).mpr hmodel
    refine ⟨τ, hF, fun x hx ↦ litVal_congr (hτ _ ?_), hcnf, hcount τ hF hcnf⟩
    exact h.proper.apart x (h.leaves ▸ hx)

theorem Kept.single (h : Kept s t) {x : ℕ} (hx : s.constraint.inputs = [x]) : t = leaf x := by
  cases t with
  | leaf input =>
    have heq : [input] = [x] := h.leaves.trans hx
    rw [(List.cons_eq_cons.mp heq).1]
  | node left right outputs dirty =>
    have hpos : ∀ t : TotalizerTree, 0 < t.leaves.length := by
      intro t
      induction t with
      | leaf input => exact Nat.one_pos
      | node left right outputs dirty ihl ihr =>
        rw [TotalizerTree.leaves, List.length_append]
        omega
    have heq := congrArg List.length (h.leaves.trans hx)
    rw [TotalizerTree.leaves, List.length_append, List.length_singleton] at heq
    have hl := hpos left
    have hr := hpos right
    omega

theorem Kept.assume_right (h : Kept s t) (hc : c' = { s.constraint with root := some t.settled })
    (hperm : cnf.Perm t.fullCNF) :
    (c'.inputs.length < 2 ^ 32 → (∀ y ∈ c'.outputs, y < 2 ^ 32) →
      AllMean c'.inputs cnf c'.base.assume) ∧
    ∀ x, c'.inputs = [x] → (AllMean c'.inputs cnf c'.base.assume ↔ x < 2 ^ 32) := by
  have hright : c'.inputs.length < 2 ^ 32 → (∀ y ∈ c'.outputs, y < 2 ^ 32) →
      AllMean c'.inputs cnf c'.base.assume := fun hlen hlt cmp n cube hok ↦
    (h.readable hc hperm hlen hlt).assume_means (fun _ ↦ rfl) (fun _ ↦ rfl) hok
  refine ⟨hright, fun x hx ↦ ⟨fun hall ↦ ?_, fun hlt ↦ ?_⟩⟩
  · have hin : s.constraint.inputs = [x] := by rw [hc] at hx; exact hx
    obtain rfl := h.single hin
    obtain rfl : cnf = [] := List.perm_nil.mp hperm
    rw [hx] at hall
    refine lt_of_allMean (c := c'.base) ?_ ?_ (.inl rfl) hall
    · rw [hc]
      exact congrArg _ h.outputs
    · rw [hc]
      rfl
  · refine hright (by rw [hx]; norm_num) fun y hy ↦ ?_
    have hin : s.constraint.inputs = [x] := by rw [hc] at hx; exact hx
    obtain rfl := h.single hin
    have hy : y ∈ s.constraint.outputs := by rw [hc] at hy; exact hy
    rw [h.outputs] at hy
    exact List.mem_singleton.mp hy ▸ hlt

end TotalizerCardinalityConstraint

namespace SortingConstraint

variable {c c' : SortingConstraint} {vm vm' : VariableManager}

/-- The values of all variables but the new ones can be kept, those of primed ones too. -/
theorem CNFize_extends (h : vm.Inv) (hdir : (c.le || c.ge) = true) (hne : 0 < c.inputs.length)
    (hm : 0 < c.cardinality) (hins : ∀ w ∈ c.inputs, Old vm.nextID (strip w))
    (hr : c.CNFize vm = .ok (vm', c', cnf)) (σ : Assignment) :
    ∃ τ : Assignment, (∀ v, Old vm.nextID v → τ v = σ v) ∧ satClauses τ cnf ∧
      ∀ i y, c'.outputs[i]? = some y → (litVal τ y = true ↔ i < trueCount σ c.inputs) := by
  have hmeets : Meets (fun r ↦ ∃ τ : Assignment, (∀ v, Old vm.nextID v → τ v = σ v) ∧
      satClauses τ r.2.2 ∧ ∀ i y, r.2.1.outputs[i]? = some y →
        (litVal τ y = true ↔ i < trueCount σ c.inputs)) (fun _ ↦ True) (c.CNFize vm) := by
    unfold CNFize
    refine (cardinalityNetwork_meets hdir h hne hm hins fun _ ↦ trivial).bind fun r hr ↦ ?_
    obtain ⟨-, gates, hnet, hs⟩ := hr
    obtain ⟨τ, hτ, hgates⟩ := hnet.segment.extends_ σ
    refine ⟨τ, hτ, hnet.satClauses_iff.mpr fun g hg ↦ ?_, fun i y hy ↦ ?_⟩
    · exact (hgates g hg).mono fun a b hab ↦ hab ▸ (compatible_direction c.le c.ge).refl a
    · have hf := hs _ compatible_eq (litVal τ) hgates i y hy
      have hcount : trueCount τ c.inputs = trueCount σ c.inputs :=
        trueCount_congr fun w hw ↦ hτ _ (hins w hw)
      rw [← hf, ← hcount, decide_eq_true_eq]
      rfl
  exact hmeets.of_ok hr

theorem CNFize_readable (h : vm.Inv) (hdir : (c.le || c.ge) = true) (hne : 0 < c.inputs.length)
    (hm : 0 < c.cardinality) (hins : ∀ w ∈ c.inputs, Old vm.nextID (strip w))
    (hr : c.CNFize vm = .ok (vm', c', cnf)) (hlen : c'.inputs.length < 2 ^ 32)
    (hlt : ∀ y ∈ c'.outputs, y < 2 ^ 32) : Readable c'.base c'.outputs cnf c'.le c'.ge := by
  have hmeets := post_of_ok (CNFize_meets h hdir hne hm hins fun _ ↦ trivial) hr
  obtain ⟨-, -, -, hc, hcounts⟩ := hmeets
  have hext := CNFize_extends h hdir hne hm hins hr
  dsimp only at hc hcounts
  obtain ⟨hin, hle, hge, hcard, hcnf⟩ : c'.inputs = c.inputs ∧ c'.le = c.le ∧ c'.ge = c.ge ∧
      c'.cardinality = c.cardinality ∧ c'.cnfized = true := by
    rw [hc]
    exact ⟨rfl, rfl, rfl, rfl, rfl⟩
  have hlength := hcounts.length
  have hold : Old vm.nextID idFalse := .inl (by
    have hmin := h.minId_le
    simp only [minId_eq, idFalse] at *
    omega)
  refine ⟨?_, Nat.mod_eq_of_lt hlen, ?_, ?_, hlt, fun σ hσ ↦ ?_, fun hd τ _ hsat i y hy ↦ ?_,
    fun hd τ _ hsat i y hy ↦ ?_⟩
  · simp only [base, hcnf, ensure_true, ok_bind]
    rfl
  · change min c'.cardinality c'.inputs.length % 2 ^ 32 = c'.outputs.length
    rw [Nat.mod_eq_of_lt (by omega), hlength, hcard, hin, min_comm]
  · change c'.outputs.length ≤ c'.inputs.length
    rw [hlength, hin]
    exact min_le_left _ _
  · obtain ⟨τ, hτ, hsat, hexact⟩ := hext σ
    have hcount : trueCount τ c.inputs = trueCount σ c.inputs :=
      trueCount_congr fun x hx ↦ hτ _ (hins x hx)
    refine ⟨τ, (hτ _ hold).trans hσ, fun x hx ↦ litVal_congr (hτ _ (hins x (hin ▸ hx))), hsat, ?_⟩
    intro i y hy
    change _ ↔ i < trueCount τ c'.inputs
    rw [hin, hcount]
    exact hexact i y hy
  · exact fun hi ↦ hcounts.atLeast (hle ▸ hd) τ hsat i y hy (hin ▸ hi)
  · intro hv
    change i < trueCount τ c'.inputs
    rw [hin]
    exact hcounts.atMost (hge ▸ hd) τ hsat i y hy hv

theorem CNFize_single (vm : VariableManager) {x : ℕ} (hin : c.inputs = [x]) (hm : 0 < c.cardinality) :
    c.CNFize vm = .ok (vm, { c with outputs := [x], cnfized := true }, []) := by
  have hnet : cardinalityNetwork vm [x] c.cardinality c.le c.ge = .ok ⟨vm, [x], []⟩ := by
    rw [cardinalityNetwork]
    simp only [List.length_singleton, gt_iff_lt, Nat.one_pos, hm, decide_true, ensure_true, ok_bind]
    rw [if_pos (show 1 ≤ c.cardinality from hm), sortingNetwork]
    rfl
  unfold CNFize
  rw [hin, hnet]
  rfl

theorem assume_right (h : vm.Inv) (hdir : (c.le || c.ge) = true) (hne : c.inputs ≠ [])
    (hm : 1 ≤ c.cardinality) (hins : ∀ w ∈ c.inputs, Old vm.nextID (strip w))
    (hr : c.CNFize vm = .ok (vm', c', cnf)) :
    (c'.inputs.length < 2 ^ 32 → (∀ y ∈ c'.outputs, y < 2 ^ 32) →
      AllMean c'.inputs cnf c'.assume) ∧
    ∀ x, c'.inputs = [x] → (AllMean c'.inputs cnf c'.assume ↔ x < 2 ^ 32) := by
  have hpos : 0 < c.inputs.length := List.length_pos_iff.mpr hne
  have hright : c'.inputs.length < 2 ^ 32 → (∀ y ∈ c'.outputs, y < 2 ^ 32) →
      AllMean c'.inputs cnf c'.assume := by
    intro hlen hlt cmp n cube hok
    rw [assume_eq] at hok
    split at hok
    · exact nomatch hok
    · rename_i hno
      simp only [Bool.or_eq_true, Bool.and_eq_true, Bool.not_eq_true', not_or, not_and,
        Bool.not_eq_false] at hno
      exact (CNFize_readable h hdir hpos hm hins hr hlen hlt).assume_means hno.2 hno.1 hok
  have hinputs : c'.inputs = c.inputs := by
    obtain ⟨-, -, -, hc, -⟩ :=
      post_of_ok (CNFize_meets h hdir hpos hm hins fun _ ↦ trivial) hr
    dsimp only at hc
    rw [hc]
  refine ⟨hright, fun x hx ↦ ?_⟩
  have hsingle := CNFize_single vm (hinputs ▸ hx) hm
  rw [hr] at hsingle
  obtain ⟨rfl, hrest⟩ := Prod.mk.inj (Except.ok.inj hsingle)
  obtain ⟨hc', rfl⟩ := Prod.mk.inj hrest
  constructor
  · intro hall
    rw [hx] at hall
    have hout : c'.base.getOutputCardinality = 1 := by
      change min c'.cardinality c'.inputs.length % 2 ^ 32 = 1
      have hcard : c'.cardinality = c.cardinality := by rw [hc']
      rw [hx, hcard, List.length_singleton, min_eq_right hm]
      norm_num
    refine lt_of_allMean (c := c'.base) (by rw [hc']; rfl) hout ?_ hall
    rw [Bool.or_eq_true] at hdir
    have hle : c'.le = c.le := by rw [hc']
    have hge : c'.ge = c.ge := by rw [hc']
    cases hdir with
    | inl hl => exact .inr (by simp [assume, Override.assumeLT, hle, hl])
    | inr hg => exact .inl (by simp [assume, Override.assumeGT, hge, hg])
  · intro hlt
    refine hright (by rw [hx]; norm_num) fun y hy ↦ ?_
    rw [hc'] at hy
    exact List.mem_singleton.mp hy ▸ hlt

end SortingConstraint

open TotalizerCardinalityConstraint in
/-- For both kinds of constraint the cubes of assumptions mean what they say as long as the
outputs are below `2 ^ 32`. With a single input, which is its own output, this is just when they
do. -/
theorem assumptions_right {vm : VariableManager} (hvm : vm.Inv) :
    (∀ (s : Session) (c' : TotalizerCardinalityConstraint) (cnf : ClauseVec),
      Relation.ReflTransGen Step ⟨vm, new, []⟩ s →
      s.constraint.inputs ≠ [] → 1 ≤ s.constraint.cardinality →
      s.constraint.CNFize = .ok (c', cnf) →
      (c'.inputs.length < 2 ^ 32 → (∀ y ∈ c'.outputs, y < 2 ^ 32) →
        AllMean c'.inputs cnf c'.base.assume) ∧
      ∀ x, c'.inputs = [x] → (AllMean c'.inputs cnf c'.base.assume ↔ x < 2 ^ 32)) ∧
    ∀ (vm' : VariableManager) (c c' : SortingConstraint) (cnf : ClauseVec),
      (c.le || c.ge) = true → c.inputs ≠ [] → 1 ≤ c.cardinality →
      (∀ w ∈ c.inputs, Old vm.nextID (strip w)) → c.CNFize vm = .ok (vm', c', cnf) →
      (c'.inputs.length < 2 ^ 32 → (∀ y ∈ c'.outputs, y < 2 ^ 32) →
        AllMean c'.inputs cnf c'.assume) ∧
      ∀ x, c'.inputs = [x] → (AllMean c'.inputs cnf c'.assume ↔ x < 2 ^ 32) := by
  constructor
  · intro s c' cnf hrun hne _ hr
    have hinv := inv_of_run hvm hrun
    cases hroot : s.constraint.root with
    | none => exact absurd (hinv.empty hroot).1 hne
    | some t =>
      have hkept := hinv.kept t hroot
      obtain ⟨hc, hperm⟩ := post_of_ok (hkept.CNFize_meets hroot) hr
      exact hkept.assume_right hc hperm
  · intro vm' c c' cnf hdir hne hm hins hr
    exact SortingConstraint.assume_right hvm hdir hne hm hins hr

open TotalizerCardinalityConstraint in
/-- An input and a negated one, counted up to one by a totalizer, and one input counted by a
sorting network. -/
theorem assumptions_right_two :
    (∃ s c' cnf, Relation.ReflTransGen Step ⟨fourVars, new, []⟩ s ∧
      s.constraint.CNFize = .ok (c', cnf) ∧ c'.inputs = [4, 7] ∧
      AllMean c'.inputs cnf c'.base.assume) ∧
    ∃ vm' c' cnf, SortingConstraint.CNFize ⟨1, [], [4], false, true, true⟩ fourVars =
      .ok (vm', c', cnf) ∧ AllMean c'.inputs cnf c'.assume := by
  have h₁ := (Relation.ReflTransGen.refl (r := Step) (a := ⟨fourVars, new, []⟩)).tail
    (.addInput 4 ⟨by decide, .inl (by decide), by decide, by decide⟩ rfl)
  have h₂ := h₁.tail (.addInput 7 ⟨by decide, .inl (by decide), by decide, by decide⟩ rfl)
  have h₃ := h₂.tail (.setCardinality 1 rfl)
  have hright := ((assumptions_right fourVars_inv).1 _ _ _ h₃ (by decide) (by decide) rfl).1
    (by decide) (by decide)
  have hr := SortingConstraint.CNFize_single fourVars
    (c := ⟨1, [], [4], false, true, true⟩) rfl (by decide)
  refine ⟨⟨_, _, _, h₃, rfl, rfl, hright⟩, _, _, _, hr, ?_⟩
  refine (((assumptions_right fourVars_inv).2 _ _ _ _ rfl (by decide) (by decide) ?_ hr).2 4
    rfl).mpr (by norm_num)
  intro w hw
  rw [List.mem_singleton.mp hw]
  exact .inl (by decide)

open TotalizerCardinalityConstraint in
/-- The cube for more than none true, of the one input `4` in the next state, is about the
input in this state. -/
theorem assumptions_right_fails : ∃ s c' cnf cube,
    Relation.ReflTransGen Step ⟨fourVars, new, []⟩ s ∧ s.constraint.inputs = [prime 4 1] ∧
      s.constraint.cardinality = 1 ∧ s.constraint.CNFize = .ok (c', cnf) ∧
      c'.base.assumeGT 0 = .ok cube ∧ cube = [4] ∧ ¬ Means c'.inputs cnf cube (0 < ·) := by
  have h₁ := (Relation.ReflTransGen.refl (r := Step) (a := ⟨fourVars, new, []⟩)).tail
    (.addInput (prime 4 1) ⟨by decide, .inr (by decide), by decide, by decide⟩ rfl)
  have h₂ := h₁.tail (.setCardinality 1 rfl)
  refine ⟨_, _, _, _, h₂, rfl, rfl, rfl, rfl, by decide, ?_⟩
  exact not_means_of_strip_ne (by decide) (by decide) true fun σ ↦ (trueCount_singleton σ).1

end PME
