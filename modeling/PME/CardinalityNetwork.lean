import PME.MergeNetwork

namespace PME

open Outcome Comparator

variable {fail : Failure → Prop} {gates : List (Gate ℕ)} {vm : VariableManager} {le ge : Bool}

def Sorts (gates : List (Gate ℕ)) (ins outs : List ℕ) : Prop :=
  ∀ R, Compatible R → ∀ v : ℕ → Bool, (∀ g ∈ gates, g.Holds R v) → Follows R v (ins.countP v) outs

/-- The two parts of the input are counted up to `m` each, and the sum up to `m` too. -/
theorem Sorts.of_halves {gatesl gatesr gatesm : List (Gate ℕ)} {left right outsl outsr outs : List ℕ}
    {m : ℕ} (hl : Sorts gatesl left outsl) (hr : Sorts gatesr right outsr)
    (hm : Merges gatesm outsl outsr outs) (hlenl : outsl.length = min left.length m)
    (hlenr : outsr.length = min right.length m) (hlen : outs.length ≤ m) :
    Sorts (gatesl ++ gatesr ++ gatesm) (left ++ right) outs := by
  intro R hR v hv
  have hfl := hl R hR v fun g hg ↦ hv g (by simp [hg])
  have hfr := hr R hR v fun g hg ↦ hv g (by simp [hg])
  have hcl : left.countP v ≤ left.length := List.countP_le_length
  have hcr : right.countP v ≤ right.length := List.countP_le_length
  have hfl' : Follows R v (min (left.countP v) outsl.length) outsl := hfl.congr fun i hi ↦ by omega
  have hfr' : Follows R v (min (right.countP v) outsr.length) outsr := hfr.congr fun i hi ↦ by omega
  have hf := hm R hR v (fun g hg ↦ hv g (by simp [hg])) _ _ (by omega) (by omega) hfl' hfr'
  refine hf.congr fun i hi ↦ ?_
  rw [List.countP_append]
  omega

theorem Network.parts {left right : List ℕ} {boundl boundr boundm : ℕ} {rl rr rm : CNFNetwork}
    {gatesl gatesr gatesm : List (Gate ℕ)} (hins : ∀ w ∈ left ++ right, Old vm.nextID (strip w))
    (hl : Network vm le ge left boundl rl gatesl) (hr : Network rl.vm le ge right boundr rr gatesr)
    (hm : Network rr.vm le ge (rl.outputs ++ rr.outputs) boundm rm gatesm) :
    Network vm le ge (left ++ right) (boundl + boundr + boundm)
      ⟨rm.vm, rm.outputs, rl.cnf ++ rr.cnf ++ rm.cnf⟩ (gatesl ++ gatesr ++ gatesm) := by
  have hsubl : left ⊆ left ++ right := List.subset_append_left left right
  have hsubr : right ⊆ left ++ right := List.subset_append_right left right
  have hparts := (hl.mono hsubl le_rfl).append (rl.outputs ++ rr.outputs) hr hins
    (fun w hw ↦ .inl (hsubr hw)) (fun w hw ↦ List.mem_append.mp hw)
  exact hparts.append _ hm hins hparts.outputs fun w hw ↦ .inr hw

theorem sum_cubes_le {l r : ℕ} (hl : 0 < l) (hr : 0 < r) :
    l ^ 3 + r ^ 3 + (l + r) ^ 2 ≤ (l + r) ^ 3 := by
  have hmul : l + r ≤ 2 * (l * r) := by nlinarith
  have hcube : (l + r) ^ 3 = l ^ 3 + r ^ 3 + 3 * (l * r) * (l + r) := by ring
  have hsq : (l + r) ^ 2 ≤ 3 * (l * r) * (l + r) := by
    rw [Nat.pow_two]
    exact Nat.mul_le_mul_right _ (by omega)
  omega

theorem sortingNetwork_meets (hdir : (le || ge) = true) {inputs : List ℕ} (h : vm.Inv)
    (hne : 0 < inputs.length) (hins : ∀ w ∈ inputs, Old vm.nextID (strip w))
    (hids : maxId + 1 < vm.nextID + 2 * inputs.length ^ 3 → fail .idsExhausted) :
    Meets (fun r ↦ r.outputs.length = inputs.length ∧
      ∃ gates, Network vm le ge inputs (inputs.length ^ 3) r gates ∧ Sorts gates inputs r.outputs)
      fail (sortingNetwork vm inputs le ge) := by
  induction hn : inputs.length using Nat.strong_induction_on generalizing vm inputs with
  | _ n ih =>
  rw [hn] at hids hne
  rw [sortingNetwork]
  simp only [hn, gt_iff_lt, hne, decide_true, ensure_true, ok_bind]
  by_cases hone : n = 1
  · rw [if_pos hone, meets_pure]
    obtain ⟨x, rfl⟩ := List.length_eq_one_iff.mp (hn.trans hone)
    refine ⟨hn, [], (Network.nil h fun w hw ↦ hw).mono (fun w hw ↦ hw) (Nat.zero_le _), ?_⟩
    intro R hR v hv
    exact follows_countP hR x
  rw [if_neg hone]
  by_cases htwo : n = 2
  · subst htwo
    obtain ⟨x₁, x₂, rfl⟩ := List.length_eq_two.mp hn
    rw [if_pos rfl]
    have hat₁ : vecAt [x₁, x₂] 0 = .ok x₁ := rfl
    have hat₂ : vecAt [x₁, x₂] 1 = .ok x₂ := rfl
    rw [hat₁, ok_bind, hat₂, ok_bind]
    refine (mergeNetwork_meets (a := [x₁]) (b := [x₂]) hdir h hins ?_).imp fun r hr ↦ ?_
    · intro hmax
      simp only [List.length_singleton] at hmax
      exact hids (by omega)
    obtain ⟨hlen, gates, hnet, hm⟩ := hr
    refine ⟨hlen, gates, hnet.mono (fun w hw ↦ hw) (by simp), ?_⟩
    intro R hR v hv
    have hsum : [x₁, x₂].countP v = [x₁].countP v + [x₂].countP v := by
      rw [← List.countP_append]
      rfl
    rw [hsum]
    exact hm R hR v hv _ _ List.countP_le_length List.countP_le_length
      (follows_countP hR x₁) (follows_countP hR x₂)
  rw [if_neg htwo, dif_neg (by omega)]
  have hlenl : (inputs.take (n / 2)).length = n / 2 := by
    rw [List.length_take]
    omega
  have hlenr : (inputs.drop (n / 2)).length = n - n / 2 := by
    rw [List.length_drop]
    omega
  have hsplit : inputs.take (n / 2) ++ inputs.drop (n / 2) = inputs := List.take_append_drop _ _
  have hbound : (n / 2) ^ 3 + (n - n / 2) ^ 3 + n ^ 2 ≤ n ^ 3 := by
    have h := sum_cubes_le (l := n / 2) (r := n - n / 2) (by omega) (by omega)
    rwa [show n / 2 + (n - n / 2) = n by omega] at h
  refine (@ih (n / 2) (by omega) vm (inputs.take (n / 2)) h (by omega)
    (fun w hw ↦ hins w (List.mem_of_mem_take hw)) ?_ hlenl).bind fun rl hrl ↦ ?_
  · intro hmax
    rw [hlenl] at hmax
    exact hids (by omega)
  obtain ⟨holl, gatesl, hnetl, hsl⟩ := hrl
  have hlel := hnetl.nextID_le
  have hmonol := hnetl.segment.le
  refine (@ih (n - n / 2) (by omega) rl.vm (inputs.drop (n / 2)) hnetl.inv (by omega)
    (fun w hw ↦ (hins w (List.mem_of_mem_drop hw)).mono hmonol) ?_ hlenr).bind fun rr hrr ↦ ?_
  · intro hmax
    rw [hlenr] at hmax
    exact hids (by omega)
  obtain ⟨holr, gatesr, hnetr, hsr⟩ := hrr
  have hler := hnetr.nextID_le
  have hoplen : rl.outputs.length + rr.outputs.length = n := by omega
  have hmins : ∀ w ∈ rl.outputs ++ rr.outputs, Old rr.vm.nextID (strip w) := by
    intro w hw
    cases List.mem_append.mp hw with
    | inl hw =>
      exact ((hnetl.outputs w hw).old hmonol fun w hw ↦ hins w (List.mem_of_mem_take hw)).mono
        hnetr.segment.le
    | inr hw =>
      exact (hnetr.outputs w hw).old hnetr.segment.le fun w hw ↦
        (hins w (List.mem_of_mem_drop hw)).mono hmonol
  refine (mergeNetwork_meets hdir hnetr.inv hmins ?_).bind fun rm hrm ↦ ?_
  · intro hmax
    rw [hoplen] at hmax
    exact hids (by omega)
  obtain ⟨hmlen, gatesm, hnetm, hm⟩ := hrm
  rw [hoplen] at hnetm
  rw [meets_pure]
  have hnet := Network.parts (by rw [hsplit]; exact hins) hnetl hnetr hnetm
  have hsort := hsl.of_halves (m := n) hsr hm (by omega) (by omega) (by omega)
  rw [hsplit] at hnet hsort
  exact ⟨by dsimp only; omega, _, hnet.mono (fun w hw ↦ hw) (by omega), hsort⟩

theorem cardinalityNetwork_meets (hdir : (le || ge) = true) {inputs : List ℕ} {m : ℕ} (h : vm.Inv)
    (hne : 0 < inputs.length) (hm : 0 < m) (hins : ∀ w ∈ inputs, Old vm.nextID (strip w))
    (hids : maxId + 1 < vm.nextID + 2 * inputs.length ^ 3 → fail .idsExhausted) :
    Meets (fun r ↦ r.outputs.length = min inputs.length m ∧
      ∃ gates, Network vm le ge inputs (inputs.length ^ 3) r gates ∧ Sorts gates inputs r.outputs)
      fail (cardinalityNetwork vm inputs m le ge) := by
  induction hn : inputs.length using Nat.strong_induction_on generalizing vm inputs with
  | _ n ih =>
  rw [hn] at hids hne
  rw [cardinalityNetwork]
  simp only [hn, gt_iff_lt, hne, hm, decide_true, ensure_true, ok_bind]
  by_cases hle : n ≤ m
  · rw [if_pos hle]
    refine (sortingNetwork_meets hdir h (by omega) hins (by rw [hn]; exact hids)).imp fun r hr ↦ ?_
    obtain ⟨hlen, hr⟩ := hr
    rw [hn] at hlen hr
    exact ⟨by omega, hr⟩
  rw [if_neg hle, dif_neg (by omega)]
  have hlenl : (inputs.take (n / 2)).length = n / 2 := by
    rw [List.length_take]
    omega
  have hlenr : (inputs.drop (n / 2)).length = n - n / 2 := by
    rw [List.length_drop]
    omega
  have hsplit : inputs.take (n / 2) ++ inputs.drop (n / 2) = inputs := List.take_append_drop _ _
  have hbound : (n / 2) ^ 3 + (n - n / 2) ^ 3 + n ^ 2 ≤ n ^ 3 := by
    have h := sum_cubes_le (l := n / 2) (r := n - n / 2) (by omega) (by omega)
    rwa [show n / 2 + (n - n / 2) = n by omega] at h
  refine (@ih (n / 2) (by omega) vm (inputs.take (n / 2)) h (by omega)
    (fun w hw ↦ hins w (List.mem_of_mem_take hw)) ?_ hlenl).bind fun rl hrl ↦ ?_
  · intro hmax
    rw [hlenl] at hmax
    exact hids (by omega)
  obtain ⟨holl, gatesl, hnetl, hsl⟩ := hrl
  have hlel := hnetl.nextID_le
  have hmonol := hnetl.segment.le
  refine (@ih (n - n / 2) (by omega) rl.vm (inputs.drop (n / 2)) hnetl.inv (by omega)
    (fun w hw ↦ (hins w (List.mem_of_mem_drop hw)).mono hmonol) ?_ hlenr).bind fun rr hrr ↦ ?_
  · intro hmax
    rw [hlenr] at hmax
    exact hids (by omega)
  obtain ⟨holr, gatesr, hnetr, hsr⟩ := hrr
  have hler := hnetr.nextID_le
  have hassert : (rl.outputs.length == min (n / 2) m) = true := beq_iff_eq.mpr holl
  have hassert' : (rr.outputs.length == min (n - n / 2) m) = true := beq_iff_eq.mpr holr
  rw [hassert, hassert', ensure_true, ok_bind, ok_bind]
  have hpow : (rl.outputs.length + rr.outputs.length) ^ 2 ≤ n ^ 2 :=
    Nat.pow_le_pow_left (by omega) 2
  have hmins : ∀ w ∈ rl.outputs ++ rr.outputs, Old rr.vm.nextID (strip w) := by
    intro w hw
    cases List.mem_append.mp hw with
    | inl hw =>
      exact ((hnetl.outputs w hw).old hmonol fun w hw ↦ hins w (List.mem_of_mem_take hw)).mono
        hnetr.segment.le
    | inr hw =>
      exact (hnetr.outputs w hw).old hnetr.segment.le fun w hw ↦
        (hins w (List.mem_of_mem_drop hw)).mono hmonol
  refine (simpMergeNetwork_meets (c := m) hdir hnetr.inv hmins fun hmax ↦
    hids (by omega)).bind fun rm hrm ↦ ?_
  obtain ⟨hmlen, gatesm, hnetm, hmerge⟩ := hrm
  rw [meets_pure]
  have hnet := Network.parts (by rw [hsplit]; exact hins) hnetl hnetr hnetm
  have hsort := hsl.of_halves (m := m) hsr hmerge (by omega) (by omega) (by omega)
  rw [hsplit] at hnet hsort
  exact ⟨by dsimp only; omega, _, hnet.mono (fun w hw ↦ hw) (by omega), hsort⟩

theorem Network.satClauses_iff {ins : List ℕ} {bound : ℕ} {r : CNFNetwork} {σ : Assignment}
    (h : Network vm le ge ins bound r gates) :
    satClauses σ r.cnf ↔ ∀ g ∈ gates, g.Holds (Direction le ge) (litVal σ) := by
  rw [h.cnf, satClauses_flatMap]
  exact forall₂_congr fun g _ ↦ satClauses_gateCNF le ge g

theorem Network.varsOf_subset {ins : List ℕ} {bound : ℕ} {r : CNFNetwork}
    (h : Network vm le ge ins bound r gates) {v : ℕ} (hv : v ∈ varsOf r.cnf) :
    (∃ x ∈ ins, strip x = v) ∨ vm.nextID ≤ v ∧ v < r.vm.nextID := by
  obtain ⟨cls, hc, lit, hl, rfl⟩ := hv
  rw [h.cnf, List.mem_flatMap] at hc
  obtain ⟨g, hg, hc⟩ := hc
  obtain ⟨w, hw, hs⟩ := gateCNF_vars hc hl
  rw [hs]
  exact (h.segment.wires g hg w hw).imp (fun hw ↦ ⟨w, hw, rfl⟩) id

def trueCount (σ : Assignment) (inputs : List ℕ) : ℕ := inputs.countP (litVal σ)

theorem trueCount_congr {σ τ : Assignment} {inputs : List ℕ}
    (h : ∀ x ∈ inputs, τ (strip x) = σ (strip x)) : trueCount τ inputs = trueCount σ inputs := by
  apply List.countP_congr
  intro x hx
  rw [litVal_congr (h x hx)]

theorem trueCount_negateVec (σ : Assignment) (inputs : List ℕ) :
    trueCount σ (negateVec inputs) + trueCount σ inputs = inputs.length := by
  have hlen := List.length_eq_countP_add_countP (litVal σ) (l := inputs)
  have hneg : trueCount σ (negateVec inputs) = inputs.countP fun x ↦ decide ¬ litVal σ x = true := by
    rw [trueCount, negateVec, List.countP_map]
    apply List.countP_congr
    intro x _
    simp
  rw [hneg, trueCount, hlen, Nat.add_comm]

/-- What a network with outputs `outputs` and clauses `cnf` has to do to count the inputs up
to `m`: each direction of the count is enforced if asked for, and none forbids the count. -/
structure Counts (vm vm' : VariableManager) (inputs : List ℕ) (m : ℕ) (le ge : Bool)
    (outputs : List ℕ) (cnf : ClauseVec) : Prop where
  length : outputs.length = min inputs.length m
  nonempty : ∀ cls ∈ cnf, cls ≠ []
  vars : ∀ v ∈ varsOf cnf, (∃ x ∈ inputs, strip x = v) ∨ vm.nextID ≤ v ∧ v < vm'.nextID
  wires : ∀ y ∈ outputs, y ∈ inputs ∨ vm.nextID ≤ strip y ∧ strip y < vm'.nextID
  extension : ∀ σ, ∃ τ, (∀ v, Old vm.nextID v → τ v = σ v) ∧ satClauses τ cnf ∧
    ∀ i y, outputs[i]? = some y → (litVal τ y = true ↔ i < trueCount σ inputs)
  atLeast : le = true → ∀ σ, satClauses σ cnf → ∀ i y, outputs[i]? = some y →
    i < trueCount σ inputs → litVal σ y = true
  atMost : ge = true → ∀ σ, satClauses σ cnf → ∀ i y, outputs[i]? = some y →
    litVal σ y = true → i < trueCount σ inputs

theorem Network.counts {inputs : List ℕ} {m bound : ℕ} {r : CNFNetwork}
    (h : Network vm le ge inputs bound r gates) (hs : Sorts gates inputs r.outputs)
    (hlen : r.outputs.length = min inputs.length m) (hins : ∀ w ∈ inputs, Old vm.nextID (strip w)) :
    Counts vm r.vm inputs m le ge r.outputs r.cnf where
  length := hlen
  nonempty := by
    intro cls hc
    rw [h.cnf, List.mem_flatMap] at hc
    obtain ⟨g, -, hc⟩ := hc
    exact gateCNF_nonempty hc
  vars v hv := h.varsOf_subset hv
  wires := h.outputs
  extension := by
    intro σ
    obtain ⟨τ, hτ, hgates⟩ := h.segment.extends_ σ
    have hcount : trueCount τ inputs = trueCount σ inputs :=
      trueCount_congr fun w hw ↦ hτ _ (hins w hw)
    refine ⟨τ, hτ, h.satClauses_iff.mpr fun g hg ↦ ?_, fun i y hy ↦ ?_⟩
    · exact (hgates g hg).mono fun a b hab ↦ hab ▸ (compatible_direction le ge).refl a
    · have hf := hs _ compatible_eq (litVal τ) hgates i y hy
      rw [← hf, ← hcount, decide_eq_true_eq]
      rfl
  atLeast := by
    intro hle σ hσ i y hy hi
    have hf := hs _ (compatible_direction le ge) (litVal σ) (h.satClauses_iff.mp hσ) i y hy
    exact hf.1 hle (decide_eq_true hi)
  atMost := by
    intro hge σ hσ i y hy hv
    have hf := hs _ (compatible_direction le ge) (litVal σ) (h.satClauses_iff.mp hσ) i y hy
    exact of_decide_eq_true (hf.2 hge hv)

/-- A cardinality network counts its inputs up to `m`. The construction can only stop because
the IDs run out, and for `n` inputs it makes at most `n ^ 3` variables. -/
theorem cardinalityNetwork_counts {inputs : List ℕ} {m : ℕ} (h : vm.Inv) (hne : inputs ≠ [])
    (hins : ∀ x ∈ inputs, Old vm.nextID (strip x)) (hm : 1 ≤ m) (hdir : le = true ∨ ge = true) :
    Meets (fun r ↦ Counts vm r.vm inputs m le ge r.outputs r.cnf)
      (fun e ↦ e = .idsExhausted ∧ maxId + 1 < vm.nextID + 2 * inputs.length ^ 3)
      (cardinalityNetwork vm inputs m le ge) := by
  have hpos : 0 < inputs.length := List.length_pos_iff.mpr hne
  have hor : (le || ge) = true := by
    rw [Bool.or_eq_true]
    exact hdir
  refine (cardinalityNetwork_meets hor h hpos hm hins fun hmax ↦ ⟨rfl, hmax⟩).imp fun r hr ↦ ?_
  obtain ⟨hlen, gates, hnet, hs⟩ := hr
  exact hnet.counts hs hlen hins

/-- The state after four calls of `getNewID`. -/
def fourVars : VariableManager where
  nextID := 12
  vars := [(10, 0), (8, 0), (6, 0), (4, 0), (2, 0)]
  internalToExternal := [(2, 0)]
  externalToInternal := [(0, 2)]

theorem fourVars_inv : fourVars.Inv := by
  have hstep : ∀ vm vm' : VariableManager, ∀ y, vm.Inv → vm.getNewID 0 = .ok (y, vm') → vm'.Inv := by
    intro vm vm' y h hr
    have hm : Meets _ (fun _ ↦ True) (vm.getNewID 0) := getNewID_zero_meets h fun _ ↦ trivial
    exact (hm.of_ok hr).2.2
  have h₁ := hstep _ _ _ VariableManager.inv_new rfl
  have h₂ := hstep _ _ _ h₁ rfl
  have h₃ := hstep _ _ _ h₂ rfl
  exact hstep _ _ _ h₃ rfl

/-- Five literals over these variables, one repeated, one negated and one primed, counted up to
three. -/
theorem cardinalityNetwork_counts_five :
    ∃ r, cardinalityNetwork fourVars [4, 7, 8, 8, prime 10 1] 3 true true = .ok r ∧
      Counts fourVars r.vm [4, 7, 8, 8, prime 10 1] 3 true true r.outputs r.cnf := by
  have h := @cardinalityNetwork_counts fourVars true true [4, 7, 8, 8, prime 10 1] 3
    fourVars_inv (by simp) (by unfold Old; decide) (by decide) (.inl rfl)
  cases hr : cardinalityNetwork fourVars [4, 7, 8, 8, prime 10 1] 3 true true with
  | ok r =>
    rw [hr] at h
    exact ⟨r, rfl, h⟩
  | error e =>
    rw [hr] at h
    exact absurd h.2 (by decide)

end PME
