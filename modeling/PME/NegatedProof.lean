import PME.CardinalityConstraint

namespace PME

open Outcome Comparator

namespace IVCUCBFFinder

/-- The loop of `negatePrimeAndCNFize` at a clause: its literals, negated and primed, hold once
it is activated. -/
def activate (s : VariableManager × SortingConstraint × ClauseVec) (c : Clause) :
    Result (VariableManager × SortingConstraint × ClauseVec) := do
  let (vm, cardinality, dnf) := s
  let (act, vm) ← vm.getNewID 0
  let cardinality := cardinality.addInput act
  let nact := negate act
  return (vm, cardinality, dnf ++ c.map fun lit ↦ [nact, prime (negate lit) 1])

def negatePrimeAndCNFize (vm : VariableManager) (vec : ClauseVec) :
    Result (VariableManager × ClauseVec) := do
  let cardinality := SortingConstraint.sortingCardinalityConstraint.setCardinality 2
  let (vm, cardinality, dnf) ← vec.foldlM activate (vm, cardinality, [])
  let (vm, cardinality, cardinalityClauses) ← cardinality.CNFize vm
  let assumps ← cardinality.assumeEq 1
  return (vm, dnf ++ cardinalityClauses ++ assumps.map ([·]))

variable {fail : Failure → Prop} {vm vm' : VariableManager} {vec : ClauseVec}
  {s : VariableManager × SortingConstraint × ClauseVec}

structure Activated (vm : VariableManager) (done : ClauseVec)
    (s : VariableManager × SortingConstraint × ClauseVec) : Prop where
  inv : s.1.Inv
  nextID : s.1.nextID = vm.nextID + 2 * done.length
  constraint : s.2.1 = ⟨2, [], (List.range done.length).map (vm.nextID + 2 * ·), false, true, true⟩
  dnf : ∀ τ, satClauses τ s.2.2 ↔ ∀ i c, done[i]? = some c → τ (vm.nextID + 2 * i) = true →
    ∀ lit ∈ c, litVal τ (prime (negate lit) 1) = true
  form : ∀ cls ∈ s.2.2, ∃ i < done.length, ∃ c ∈ done, ∃ lit ∈ c,
    cls = [negate (vm.nextID + 2 * i), prime (negate lit) 1]

theorem activate_meets (h : Activated vm vec s) (c : Clause)
    (hids : maxId < s.1.nextID → fail .idsExhausted) :
    Meets (Activated vm (vec ++ [c])) fail (activate s c) := by
  obtain ⟨vm₁, cardinality, dnf⟩ := s
  obtain ⟨hinv, hnext, hconstraint, hdnf, hform⟩ := h
  dsimp only at hinv hnext hconstraint hdnf hform hids
  unfold activate
  refine (getNewID_zero_meets hinv hids).bind fun r hr ↦ ?_
  obtain ⟨act, vm₂⟩ := r
  obtain ⟨hact, hnext₂, hinv₂⟩ := hr
  dsimp only at hact hnext₂ hinv₂ ⊢
  rw [meets_pure]
  refine ⟨hinv₂, ?_, ?_, fun τ ↦ ?_, fun cls hcls ↦ ?_⟩
  · rw [List.length_append, List.length_singleton]
    dsimp only
    omega
  · rw [hconstraint, hact, hnext, List.length_append, List.length_singleton, List.range_succ,
      List.map_append]
    rfl
  · have heven : act % 2 = 0 := hact ▸ hinv.even
    have hclause : satClauses τ (c.map fun lit ↦ [negate act, prime (negate lit) 1]) ↔
        (τ act = true → ∀ lit ∈ c, litVal τ (prime (negate lit) 1) = true) := by
      unfold satClauses
      rw [List.forall_mem_map]
      simp only [satClause_cons, litVal_negate, litVal_of_even heven, not_satClause_nil, or_false]
      cases τ act <;> simp
    rw [satClauses_append, hdnf, hclause, hact, hnext]
    constructor
    · intro hboth i c' hi hval
      obtain hlt | hge := Nat.lt_or_ge i vec.length
      · rw [List.getElem?_append_left hlt] at hi
        exact hboth.1 i c' hi hval
      · rw [List.getElem?_append_right hge] at hi
        have hzero : i = vec.length := by
          have hbound := (List.getElem?_eq_some_iff.mp hi).1
          rw [List.length_singleton] at hbound
          omega
        subst hzero
        rw [Nat.sub_self] at hi
        cases hi
        exact hboth.2 hval
    · intro hall
      refine ⟨fun i c' hi hval ↦ hall i c' ?_ hval, fun hval ↦ hall vec.length c ?_ hval⟩
      · rw [List.getElem?_append_left (List.getElem?_eq_some_iff.mp hi).1]
        exact hi
      · rw [List.getElem?_append_right le_rfl, Nat.sub_self]
        rfl
  · rw [List.length_append, List.length_singleton]
    cases List.mem_append.mp hcls with
    | inl hold =>
      obtain ⟨i, hi, d, hd, lit, hl, heq⟩ := hform cls hold
      exact ⟨i, by omega, d, List.mem_append_left _ hd, lit, hl, heq⟩
    | inr hnew =>
      obtain ⟨lit, hl, rfl⟩ := List.mem_map.mp hnew
      exact ⟨vec.length, by omega, c, List.mem_append_right _ List.mem_cons_self, lit, hl, by rw [hact, hnext]⟩

theorem activateAll_meets (h : vm.Inv)
    (hids : maxId + 1 < vm.nextID + 2 * vec.length → fail .idsExhausted) :
    Meets (Activated vm vec) fail
      (vec.foldlM activate (vm, SortingConstraint.sortingCardinalityConstraint.setCardinality 2, [])) := by
  refine foldlM_meets (Activated vm) _ ⟨h, rfl, rfl, fun τ ↦ ?_, nofun⟩ ?_
  · exact ⟨fun _ i c hi ↦ (nomatch hi), fun _ ↦ satClauses_nil⟩
  · intro done c rest s hl hs
    refine activate_meets hs c fun hlt ↦ hids ?_
    have hlen := congrArg List.length hl
    have heven := h.even
    rw [List.length_append, List.length_cons] at hlen
    rw [hs.nextID, maxId_eq] at hlt
    rw [maxId_eq]
    omega

/-- To assume that exactly one input is true: for a single one this is the input itself. -/
theorem assumeOne_meets {c : SortingConstraint} (hle : c.le = true) (hge : c.ge = true)
    (hcard : c.cardinality = 2) (hcnf : c.cnfized = true) (hne : 0 < c.inputs.length)
    (hlen : c.outputs.length = c.getOutputCardinality)
    (hids : ∀ y ∈ c.outputs, 2 ^ 32 ≤ y → fail .narrowed) :
    Meets (fun cube ↦
      (∀ τ : Assignment,
        (∀ i y, c.outputs[i]? = some y → i < trueCount τ c.inputs → litVal τ y = true) →
        (∀ i y, c.outputs[i]? = some y → litVal τ y = true → i < trueCount τ c.inputs) →
        satCube τ cube → trueCount τ c.inputs = 1) ∧
      (∀ τ : Assignment,
        (∀ i y, c.outputs[i]? = some y → (litVal τ y = true ↔ i < trueCount τ c.inputs)) →
        trueCount τ c.inputs = 1 → satCube τ cube) ∧
      ∀ lit ∈ cube, ∃ y ∈ c.inputs ++ c.outputs, strip lit = strip y) fail (c.assumeEq 1) := by
  by_cases hone : c.inputs.length = 1
  · have hout : c.getOutputCardinality = 1 := by
      rw [SortingConstraint.getOutputCardinality, hcard, hone]
      rfl
    have hinputs : ∀ τ, trueCount τ c.inputs = 1 ↔ satCube τ c.inputs := by
      intro τ
      rw [trueCount, ← hone, List.countP_eq_length]
      rfl
    unfold SortingConstraint.assumeEq
    rw [hle, hge, Bool.not_true, Bool.or_false, if_neg Bool.false_ne_true, if_pos ⟨hone.symm, hout.symm⟩]
    exact ⟨fun τ _ _ hsat ↦ (hinputs τ).mpr hsat, fun τ _ hcount ↦ (hinputs τ).mp hcount, fun lit hl ↦
      ⟨lit, List.mem_append_left _ hl, rfl⟩⟩
  · have hout : 1 < c.getOutputCardinality := by
      rw [SortingConstraint.getOutputCardinality, hcard]
      omega
    refine (SortingConstraint.assumeEq_meets hle hge hcnf hlen hids hout).imp fun cube hcube ↦ ?_
    refine ⟨fun τ hlow hhigh hsat ↦ hcube.sound τ (fun _ ↦ hlow) (fun _ ↦ hhigh) hsat, hcube.complete,
      fun lit hl ↦ ?_⟩
    obtain ⟨y, hy, heq⟩ := hcube.vars lit hl
    exact ⟨y, List.mem_append_right _ hy, heq⟩

/-- One activation variable is true, of those made from `n` on for `len` clauses. -/
def activateOnly (σ : Assignment) (n len j : ℕ) : Assignment := fun v ↦
  if n ≤ v ∧ v < n + 2 * len then decide (v = n + 2 * j) else σ v

theorem trueCount_activateOnly (σ : Assignment) {n len j : ℕ} (heven : n % 2 = 0) (hj : j < len) :
    trueCount (activateOnly σ n len j) ((List.range len).map (n + 2 * ·)) = 1 := by
  have hval : ∀ i < len, litVal (activateOnly σ n len j) (n + 2 * i) = decide (i = j) := by
    intro i hi
    rw [litVal_of_even (by omega)]
    unfold activateOnly
    rw [if_pos (by omega)]
    exact decide_eq_decide.mpr (by omega)
  have hcount : trueCount (activateOnly σ n len j) ((List.range len).map (n + 2 * ·)) =
      (List.range len).count j := by
    unfold trueCount List.count
    rw [List.countP_map]
    refine List.countP_congr fun i hi ↦ ?_
    simp [hval i (List.mem_range.mp hi)]
  rw [hcount]
  exact List.count_eq_one_of_mem List.nodup_range (List.mem_range.mpr hj)

section Meaning

variable {n n₁ n₂ : ℕ} {dnf cnf : ClauseVec}

theorem litVal_primed {τ : Assignment} {lit : ℕ} (hlit : lit ≤ maxId) :
    litVal τ (prime (negate lit) 1) = !litVal (frameOf τ 1) lit := by
  rw [litVal_prime (negate_le hlit), litVal_negate]

/-- The second frame does not see the variables made from `n` on. -/
theorem frameOf_one_congr {σ τ : Assignment} (hmin : minId ≤ n) (hmax : n₂ ≤ maxId + 1)
    (hsame : ∀ v, ¬ (n ≤ v ∧ v < n₂) → τ v = σ v) {v : ℕ} (hv : v ≤ maxId) :
    frameOf τ 1 v = frameOf σ 1 v := by
  refine hsame _ fun hnew ↦ ?_
  rw [prime_eq hv, maxId_eq] at *
  split at hnew <;> omega

/-- Where the counter admits exactly one activation, some clause must be false. -/
theorem exists_false (hlits : ∀ c ∈ vec, ∀ lit ∈ c, lit ≤ maxId) (heven : n % 2 = 0) {τ : Assignment}
    (hdnf : ∀ i c, vec[i]? = some c → τ (n + 2 * i) = true →
      ∀ lit ∈ c, litVal τ (prime (negate lit) 1) = true)
    (hcount : trueCount τ ((List.range vec.length).map (n + 2 * ·)) = 1) :
    ∃ c ∈ vec, ¬ satClause (frameOf τ 1) c := by
  have hpos : 0 < trueCount τ ((List.range vec.length).map (n + 2 * ·)) := by omega
  obtain ⟨act, hact, hval⟩ := List.countP_pos_iff.mp hpos
  obtain ⟨i, hi, rfl⟩ := List.mem_map.mp hact
  rw [litVal_of_even (by omega)] at hval
  obtain ⟨c, hc⟩ : ∃ c, vec[i]? = some c := ⟨_, List.getElem?_eq_getElem (List.mem_range.mp hi)⟩
  have hmem := List.mem_of_getElem? hc
  refine ⟨c, hmem, fun hsat ↦ ?_⟩
  obtain ⟨lit, hl, htrue⟩ := hsat
  have hneg := hdnf i c hc hval lit hl
  rw [litVal_primed (hlits c hmem lit hl), htrue] at hneg
  exact Bool.false_ne_true hneg

theorem exists_model (hlits : ∀ c ∈ vec, ∀ lit ∈ c, lit ≤ maxId) (hmin : minId ≤ n) (heven : n % 2 = 0)
    (hn₁ : n₁ = n + 2 * vec.length) (hle : n₁ ≤ n₂) (hmax : n₂ ≤ maxId + 1) {σ : Assignment} {c : Clause}
    (hc : c ∈ vec) (hfalse : ¬ satClause (frameOf σ 1) c)
    (hextend : ∀ ρ, trueCount ρ ((List.range vec.length).map (n + 2 * ·)) = 1 →
      ∃ τ, (∀ v, ¬ (n₁ ≤ v ∧ v < n₂) → τ v = ρ v) ∧ satClauses τ cnf) :
    ∃ τ, (∀ v, ¬ (n ≤ v ∧ v < n₂) → τ v = σ v) ∧ satClauses τ cnf ∧
      ∀ i c, vec[i]? = some c → τ (n + 2 * i) = true →
        ∀ lit ∈ c, litVal τ (prime (negate lit) 1) = true := by
  obtain ⟨j, hj⟩ := List.getElem?_of_mem hc
  have hlt : j < vec.length := (List.getElem?_eq_some_iff.mp hj).1
  obtain ⟨τ, hτ, hcnf⟩ := hextend _ (trueCount_activateOnly σ heven hlt)
  have hsame : ∀ v, ¬ (n ≤ v ∧ v < n₂) → τ v = σ v := fun v hv ↦
    (hτ v (by omega)).trans (if_neg (by omega))
  refine ⟨τ, hsame, hcnf, fun i c' hi hval lit hl ↦ ?_⟩
  have hi' : i < vec.length := (List.getElem?_eq_some_iff.mp hi).1
  have heq : i = j := by
    rw [hτ _ (by omega)] at hval
    unfold activateOnly at hval
    rw [if_pos (by omega)] at hval
    have hid := of_decide_eq_true hval
    omega
  subst heq
  obtain rfl : c' = c := Option.some.inj (hi.symm.trans hj)
  have hlit := hlits c' hc lit hl
  rw [litVal_primed hlit, Bool.not_eq_true', Bool.eq_false_iff]
  refine fun htrue ↦ hfalse ⟨lit, hl, ?_⟩
  rw [← htrue]
  exact litVal_congr (frameOf_one_congr hmin hmax hsame ((strip_le lit).trans hlit)).symm

end Meaning

def encodingIDs (len : ℕ) : ℕ := 2 * len + 2 * len ^ 3

/-- The failures that are left: an ID of 33 bits is put into an `unsigned`, or the IDs run out. -/
def TooLarge (vm : VariableManager) (vec : ClauseVec) (e : Failure) : Prop :=
  e = .narrowed ∧ 2 ^ 32 < vm.nextID + encodingIDs vec.length ∨
    e = .idsExhausted ∧ maxId + 1 < vm.nextID + encodingIDs vec.length

/-- The clauses say of the second frame that some clause of the list is false, with variables made
for it that any assignment can be extended to. -/
structure Negates (vm : VariableManager) (vec : ClauseVec) (r : VariableManager × ClauseVec) : Prop where
  vars : r.1.Inv
  ge : vm.nextID ≤ r.1.nextID
  le : r.1.nextID ≤ vm.nextID + encodingIDs vec.length
  nonempty : ∀ cls ∈ r.2, cls ≠ []
  known : ∀ v ∈ varsOf r.2, (∃ c ∈ vec, ∃ lit ∈ c, v = prime (strip lit) 1) ∨ vm.nextID ≤ v ∧ v < r.1.nextID
  sound : ∀ τ, satClauses τ r.2 → ∃ c ∈ vec, ¬ satClause (frameOf τ 1) c
  complete : ∀ σ, (∃ c ∈ vec, ¬ satClause (frameOf σ 1) c) →
    ∃ τ, (∀ v, ¬ (vm.nextID ≤ v ∧ v < r.1.nextID) → τ v = σ v) ∧ satClauses τ r.2

theorem negatePrimeAndCNFize_meets (vec : ClauseVec) (h : vm.Inv) (hne : vec ≠ [])
    (hlits : ∀ c ∈ vec, ∀ lit ∈ c, lit ≤ maxId) :
    Meets (Negates vm vec) (TooLarge vm vec) (negatePrimeAndCNFize vm vec) := by
  have hpos : 0 < vec.length := List.length_pos_iff.mpr hne
  have hcost : 2 * vec.length ≤ encodingIDs vec.length := Nat.le_add_right _ _
  have hloop : Meets (Activated vm vec) (TooLarge vm vec) (vec.foldlM activate
      (vm, SortingConstraint.sortingCardinalityConstraint.setCardinality 2, [])) :=
    activateAll_meets h fun hlt ↦ .inr ⟨rfl, by omega⟩
  unfold negatePrimeAndCNFize
  refine hloop.bind fun s hs ↦ ?_
  obtain ⟨vm₁, c, dnf⟩ := s
  obtain ⟨hinv₁, hnext₁, hc, hdnf, hform⟩ := hs
  dsimp only at hinv₁ hnext₁ hc hdnf hform ⊢
  have hmin := h.minId_le
  have heven := h.even
  have hmax := hinv₁.le_maxId
  have hlen : c.inputs.length = vec.length := by rw [hc, List.length_map, List.length_range]
  have hcard : c.cardinality = 2 := by rw [hc]
  have hin : c.inputs = (List.range vec.length).map (vm.nextID + 2 * ·) := by rw [hc]
  have hold : ∀ w ∈ c.inputs, vm.nextID ≤ strip w ∧ strip w < vm₁.nextID := by
    intro w hw
    rw [hin] at hw
    obtain ⟨i, hi, rfl⟩ := List.mem_map.mp hw
    rw [strip_of_even (by omega), hnext₁]
    have hlt := List.mem_range.mp hi
    omega
  have hcnfize : Meets _ (TooLarge vm vec) (c.CNFize vm₁) :=
    SortingConstraint.CNFize_meets hinv₁ (by rw [hc]; rfl) (by omega) (by rw [hcard]; decide)
      (fun w hw ↦ .inl (hold w hw).2) fun hlt ↦ .inr ⟨rfl, by
        rw [hnext₁, hlen] at hlt
        unfold encodingIDs
        omega⟩
  refine hcnfize.bind fun r hr ↦ ?_
  obtain ⟨vm₂, c', cnf⟩ := r
  obtain ⟨hinv₂, hge₂, hle₂, hc', hcounts⟩ := hr
  dsimp only at hinv₂ hge₂ hle₂ hc' hcounts ⊢
  have hin' : c'.inputs = c.inputs := by rw [hc']
  have hcard' : c'.cardinality = 2 := by rw [hc', hc]
  have hle' : c'.le = true := by rw [hc', hc]
  have hge' : c'.ge = true := by rw [hc', hc]
  have hcnf' : c'.cnfized = true := by rw [hc']
  have hout : c'.outputs.length = c'.getOutputCardinality := by
    rw [hcounts.length, SortingConstraint.getOutputCardinality, hin', hcard', hcard, Nat.min_comm]
  have hwire : ∀ y ∈ c.inputs ++ c'.outputs, vm.nextID ≤ strip y ∧ strip y < vm₂.nextID := by
    intro y hy
    cases List.mem_append.mp hy with
    | inl hy => exact ⟨(hold y hy).1, (hold y hy).2.trans_le hge₂⟩
    | inr hy =>
      obtain hin | hnew := hcounts.wires y hy
      · exact ⟨(hold y hin).1, (hold y hin).2.trans_le hge₂⟩
      · omega
  rw [hnext₁, hlen] at hle₂
  have hassume : Meets _ (TooLarge vm vec) (c'.assumeEq 1) :=
    assumeOne_meets hle' hge' hcard' hcnf' (by rw [hin', hlen]; exact hpos) hout fun y hy hbig ↦ by
      have hlt := (hwire y (List.mem_append_right _ hy)).2
      rw [strip_eq] at hlt
      refine .inl ⟨rfl, ?_⟩
      unfold encodingIDs
      omega
  refine hassume.bind fun cube hcube ↦ ?_
  obtain ⟨hsound, hcomplete, hcubeVars⟩ := hcube
  rw [meets_pure]
  rw [hin', hin] at hsound hcomplete
  have hunits : ∀ τ, satClauses τ (cube.map ([·])) ↔ satCube τ cube := by
    intro τ
    unfold satClauses satCube
    rw [List.forall_mem_map]
    exact forall₂_congr fun lit _ ↦ by simp
  refine ⟨hinv₂, by dsimp only; omega, by unfold encodingIDs; dsimp only; omega, fun cls hcls ↦ ?_, fun v hv ↦ ?_,
    fun τ hsat ↦ ?_, fun σ hex ↦ ?_⟩
  · rw [List.mem_append, List.mem_append] at hcls
    obtain (hcls | hcls) | hcls := hcls
    · obtain ⟨i, -, d, -, lit, -, rfl⟩ := hform cls hcls
      exact List.cons_ne_nil _ _
    · exact hcounts.nonempty cls hcls
    · obtain ⟨lit, -, rfl⟩ := List.mem_map.mp hcls
      exact List.cons_ne_nil _ _
  · obtain ⟨cls, hcls, l, hl, rfl⟩ := hv
    rw [List.mem_append, List.mem_append] at hcls
    obtain (hcls | hcls) | hcls := hcls
    · obtain ⟨i, hi, d, hd, lit, hlit, rfl⟩ := hform cls hcls
      simp only [List.mem_cons, List.not_mem_nil, or_false] at hl
      obtain rfl | rfl := hl
      · rw [strip_negate, strip_of_even (by omega)]
        exact .inr ⟨by omega, by dsimp only; omega⟩
      · refine .inl ⟨d, hd, lit, hlit, ?_⟩
        rw [strip_prime (negate_le (hlits d hd lit hlit)), strip_negate]
    · obtain ⟨w, hw, heq⟩ | hnew := hcounts.vars _ (mem_varsOf hcls hl)
      · rw [← heq]
        exact .inr (hwire w (List.mem_append_left _ hw))
      · exact .inr ⟨by omega, hnew.2⟩
    · obtain ⟨lit, hlit, rfl⟩ := List.mem_map.mp hcls
      obtain rfl := List.mem_singleton.mp hl
      obtain ⟨y, hy, heq⟩ := hcubeVars l hlit
      rw [heq]
      exact .inr (hwire y (hin' ▸ hy))
  · rw [satClauses_append, satClauses_append, hunits] at hsat
    obtain ⟨⟨hd, hcnf⟩, hcube⟩ := hsat
    refine exists_false hlits heven ((hdnf τ).mp hd) (hsound τ ?_ ?_ hcube)
    · exact hin ▸ hcounts.atLeast (by rw [hc]) τ hcnf
    · exact hin ▸ hcounts.atMost (by rw [hc]) τ hcnf
  · obtain ⟨cls, hcls, hfalse⟩ := hex
    have hextend : ∀ ρ, trueCount ρ ((List.range vec.length).map (vm.nextID + 2 * ·)) = 1 →
        ∃ τ, (∀ v, ¬ (vm₁.nextID ≤ v ∧ v < vm₂.nextID) → τ v = ρ v) ∧
          satClauses τ (cnf ++ cube.map ([·])) := by
      intro ρ hcount
      obtain ⟨τ, hτ, hcnf, hexact⟩ := hcounts.exists_extension (fun w hw ↦ (hold w hw).2) ρ
      have hsame : trueCount τ c.inputs = trueCount ρ c.inputs := by
        refine trueCount_congr fun w hw ↦ hτ _ fun hnew ↦ ?_
        have hlt := hold w hw
        omega
      rw [hin] at hexact hsame
      exact ⟨τ, hτ, (satClauses_append ..).mpr ⟨hcnf, (hunits τ).mpr
        (hcomplete τ hexact (hsame.trans hcount))⟩⟩
    obtain ⟨τ, hτ, hsat, hd⟩ := exists_model hlits hmin heven hnext₁ hge₂ hinv₂.le_maxId hcls hfalse hextend
    refine ⟨τ, hτ, ?_⟩
    rw [satClauses_append] at hsat
    rw [satClauses_append, satClauses_append]
    exact ⟨⟨(hdnf τ).mpr hd, hsat.1⟩, hsat.2⟩

/-- The clauses can be satisfied together with the primed copy of just those assignments that
make some clause of the list false. -/
theorem negatePrimeAndCNFize_right (vec : ClauseVec) (h : vm.Inv) (hne : vec ≠ [])
    (hlits : ∀ c ∈ vec, ∀ lit ∈ c, lit ≤ maxId) :
    Meets (fun r ↦ ∀ ρ : Assignment,
        (∃ τ, (∀ v ≤ maxId, frameOf τ 1 v = ρ v) ∧ satClauses τ r.2) ↔ ∃ c ∈ vec, ¬ satClause ρ c)
      (TooLarge vm vec) (negatePrimeAndCNFize vm vec) := by
  refine (negatePrimeAndCNFize_meets vec h hne hlits).imp fun r hr ρ ↦ ?_
  have hsame : ∀ τ : Assignment, (∀ v ≤ maxId, frameOf τ 1 v = ρ v) → ∀ c ∈ vec,
      (satClause (frameOf τ 1) c ↔ satClause ρ c) := fun τ hframe c hc ↦
    satClause_congr fun lit hl ↦ hframe _ ((strip_le lit).trans (hlits c hc lit hl))
  constructor
  · intro hex
    obtain ⟨τ, hframe, hsat⟩ := hex
    obtain ⟨c, hc, hfalse⟩ := hr.sound τ hsat
    exact ⟨c, hc, mt (hsame τ hframe c hc).mpr hfalse⟩
  · intro hex
    obtain ⟨c, hc, hfalse⟩ := hex
    -- the constants are not primed, and all else is read back from above the last ID
    let σ : Assignment := fun v ↦ if v < minId then ρ v else ρ (v - 2 ^ 48)
    have hσ : ∀ v ≤ maxId, frameOf σ 1 v = ρ v := by
      intro v hv
      show σ (prime v 1) = ρ v
      by_cases hlow : v < minId
      · rw [prime_of_lt hlow]
        exact if_pos hlow
      · rw [prime_of_ge (Nat.not_lt.mp hlow) hv, one_mul]
        dsimp only [σ]
        rw [if_neg (by omega), Nat.add_sub_cancel]
    obtain ⟨τ, hτ, hsat⟩ := hr.complete σ ⟨c, hc, mt (hsame σ hσ c hc).mp hfalse⟩
    refine ⟨τ, fun v hv ↦ ?_, hsat⟩
    rw [← hσ v hv]
    exact frameOf_one_congr h.minId_le hr.vars.le_maxId hτ hv

theorem negatePrimeAndCNFize_right_three : ∃ r,
    negatePrimeAndCNFize .new [[4, 7], [6], [9]] = .ok r ∧ ∀ ρ : Assignment,
      (∃ τ, (∀ v ≤ maxId, frameOf τ 1 v = ρ v) ∧ satClauses τ r.2) ↔
        ∃ c ∈ [[4, 7], [6], [9]], ¬ satClause ρ c := by
  have hright := negatePrimeAndCNFize_right [[4, 7], [6], [9]] VariableManager.inv_new (by decide) (by decide)
  refine (hright.weaken fun e he ↦ ?_).exists_ok
  obtain he | he := he
  · exact absurd he.2 (by decide)
  · exact absurd he.2 (by decide)

end IVCUCBFFinder

end PME
