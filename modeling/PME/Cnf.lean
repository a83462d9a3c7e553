import PME.ID

namespace PME

abbrev Assignment := ℕ → Bool

def litVal (σ : Assignment) (lit : ℕ) : Bool := σ (strip lit) ^^ isNegated lit

def satClause (σ : Assignment) (cls : Clause) : Prop := ∃ lit ∈ cls, litVal σ lit = true

def satClauses (σ : Assignment) (vec : ClauseVec) : Prop := ∀ cls ∈ vec, satClause σ cls

def satCube (σ : Assignment) (cube : Cube) : Prop := ∀ lit ∈ cube, litVal σ lit = true

instance (σ : Assignment) (cls : Clause) : Decidable (satClause σ cls) :=
  inferInstanceAs (Decidable (∃ lit ∈ cls, litVal σ lit = true))

instance (σ : Assignment) (vec : ClauseVec) : Decidable (satClauses σ vec) :=
  inferInstanceAs (Decidable (∀ cls ∈ vec, satClause σ cls))

instance (σ : Assignment) (cube : Cube) : Decidable (satCube σ cube) :=
  inferInstanceAs (Decidable (∀ lit ∈ cube, litVal σ lit = true))

variable {σ τ : Assignment}

theorem litVal_of_even {lit : ℕ} (h : lit % 2 = 0) : litVal σ lit = σ lit := by
  rw [litVal, strip_of_even h, (isNegated_eq_false lit).mpr h, Bool.xor_false]

@[simp] theorem litVal_negate (lit : ℕ) : litVal σ (negate lit) = !litVal σ lit := by
  simp [litVal]

@[simp] theorem litVal_idFalse : litVal σ idFalse = σ idFalse := litVal_of_even rfl

@[simp] theorem litVal_idTrue : litVal σ idTrue = !σ idFalse := by
  rw [idTrue, litVal_negate, litVal_idFalse]

theorem litVal_congr {lit : ℕ} (h : σ (strip lit) = τ (strip lit)) :
    litVal σ lit = litVal τ lit := by
  rw [litVal, h, litVal]

theorem litVal_eq_iff {lit : ℕ} :
    litVal σ lit = litVal τ lit ↔ σ (strip lit) = τ (strip lit) := by
  simp [litVal]

@[simp] theorem satClauses_nil : satClauses σ [] := fun _ h ↦ absurd h List.not_mem_nil

@[simp] theorem satClauses_cons (cls : Clause) (vec : ClauseVec) :
    satClauses σ (cls :: vec) ↔ satClause σ cls ∧ satClauses σ vec := List.forall_mem_cons

@[simp] theorem satClauses_append (vec vec' : ClauseVec) :
    satClauses σ (vec ++ vec') ↔ satClauses σ vec ∧ satClauses σ vec' := List.forall_mem_append

theorem satClauses_flatMap {α : Type} (l : List α) (f : α → ClauseVec) :
    satClauses σ (l.flatMap f) ↔ ∀ a ∈ l, satClauses σ (f a) := by
  simp only [satClauses, List.mem_flatMap, forall_exists_index, and_imp]
  exact ⟨fun h a ha cls hc ↦ h cls a ha hc, fun h cls a ha hc ↦ h a ha cls hc⟩

@[simp] theorem satCube_nil : satCube σ [] := fun _ h ↦ absurd h List.not_mem_nil

@[simp] theorem satCube_cons (lit : ℕ) (cube : Cube) :
    satCube σ (lit :: cube) ↔ litVal σ lit = true ∧ satCube σ cube := List.forall_mem_cons

@[simp] theorem satCube_append (cube cube' : Cube) :
    satCube σ (cube ++ cube') ↔ satCube σ cube ∧ satCube σ cube' := List.forall_mem_append

theorem satCube_subset {cube cube' : Cube} (h : cube ⊆ cube') (hc : satCube σ cube') :
    satCube σ cube := fun lit hl ↦ hc lit (h hl)

@[simp] theorem not_satClause_nil : ¬ satClause σ [] := by simp [satClause]

@[simp] theorem satClause_cons (lit : ℕ) (cls : Clause) :
    satClause σ (lit :: cls) ↔ litVal σ lit = true ∨ satClause σ cls := List.exists_mem_cons_iff ..

@[simp] theorem satClause_append (cls cls' : Clause) :
    satClause σ (cls ++ cls') ↔ satClause σ cls ∨ satClause σ cls' := by
  simp only [satClause, List.mem_append, or_and_right, exists_or]

theorem satClause_negateVec (cube : Cube) : satClause σ (negateVec cube) ↔ ¬ satCube σ cube := by
  simp only [satClause, negateVec, List.mem_map, satCube]
  push Not
  constructor
  · rintro ⟨_, ⟨lit, hl, rfl⟩, hv⟩
    exact ⟨lit, hl, by simpa using hv⟩
  · rintro ⟨lit, hl, hv⟩
    exact ⟨_, ⟨lit, hl, rfl⟩, by simpa using hv⟩

theorem satCube_negateVec (cls : Clause) : satCube σ (negateVec cls) ↔ ¬ satClause σ cls := by
  simp only [satCube, negateVec, List.mem_map, forall_exists_index, and_imp,
    forall_apply_eq_imp_iff₂, litVal_negate, satClause]
  push Not
  exact forall₂_congr fun lit _ ↦ by simp

def varsOf (vec : ClauseVec) : Set ℕ := {v | ∃ cls ∈ vec, ∃ lit ∈ cls, strip lit = v}

theorem mem_varsOf {vec : ClauseVec} {cls : Clause} {lit : ℕ} (hc : cls ∈ vec) (hl : lit ∈ cls) :
    strip lit ∈ varsOf vec := ⟨cls, hc, lit, hl, rfl⟩

theorem satClause_congr {cls : Clause} (h : ∀ lit ∈ cls, σ (strip lit) = τ (strip lit)) :
    satClause σ cls ↔ satClause τ cls :=
  exists_congr fun _ ↦ and_congr_right fun hl ↦ by rw [litVal_congr (h _ hl)]

theorem satClauses_congr {vec : ClauseVec} (h : ∀ v ∈ varsOf vec, σ v = τ v) :
    satClauses σ vec ↔ satClauses τ vec :=
  forall₂_congr fun _ hc ↦ satClause_congr fun _ hl ↦ h _ (mem_varsOf hc hl)

theorem satCube_congr {cube : Cube} (h : ∀ lit ∈ cube, σ (strip lit) = τ (strip lit)) :
    satCube σ cube ↔ satCube τ cube :=
  forall₂_congr fun _ hl ↦ by rw [litVal_congr (h _ hl)]

def frameOf (σ : Assignment) (n : ℕ) : Assignment := fun v ↦ σ (prime v n)

@[simp] theorem frameOf_idFalse (n : ℕ) : frameOf σ n idFalse = σ idFalse := by
  rw [frameOf, prime_idFalse]

theorem frameOf_zero {v : ℕ} (h : v ≤ maxId) : frameOf σ 0 v = σ v := by
  rw [frameOf, prime_zero h]

theorem litVal_prime {lit : ℕ} (h : lit ≤ maxId) (n : ℕ) :
    litVal σ (prime lit n) = litVal (frameOf σ n) lit := by
  rw [litVal, litVal, strip_prime h, isNegated_prime h, frameOf]

theorem litVal_frameOf_zero {lit : ℕ} (h : lit ≤ maxId) :
    litVal (frameOf σ 0) lit = litVal σ lit := by
  rw [← litVal_prime h, prime_zero h]

theorem satClause_primeClause {cls : Clause} (h : ∀ lit ∈ cls, lit ≤ maxId) (n : ℕ) :
    satClause σ (primeClause cls n) ↔ satClause (frameOf σ n) cls := by
  simp only [satClause, primeClause, List.mem_map, exists_exists_and_eq_and]
  exact exists_congr fun lit ↦ and_congr_right fun hl ↦ by rw [litVal_prime (h lit hl)]

theorem satClauses_primeClauses {vec : ClauseVec} (h : ∀ cls ∈ vec, ∀ lit ∈ cls, lit ≤ maxId)
    (n : ℕ) : satClauses σ (primeClauses vec n) ↔ satClauses (frameOf σ n) vec := by
  simp only [satClauses, primeClauses, List.forall_mem_map]
  exact forall₂_congr fun cls hc ↦ satClause_primeClause (h cls hc) n

theorem satCube_primeVec {cube : Cube} (h : ∀ lit ∈ cube, lit ≤ maxId) (n : ℕ) :
    satCube σ (primeVec cube n) ↔ satCube (frameOf σ n) cube := by
  simp only [satCube, primeVec, primeClause, List.forall_mem_map]
  exact forall₂_congr fun lit hl ↦ by rw [litVal_prime (h lit hl)]

def joinFrames (x : ℕ → Assignment) : Assignment :=
  fun v ↦ v != idFalse && x (v / 2 ^ 48) (unprime v)

@[simp] theorem joinFrames_idFalse (x : ℕ → Assignment) : joinFrames x idFalse = false := by
  simp [joinFrames]

theorem frameOf_joinFrames (x : ℕ → Assignment) (n : ℕ) {v : ℕ} (hmin : minId ≤ v)
    (hmax : v ≤ maxId) : frameOf (joinFrames x) n v = x n v := by
  have hp := prime_of_ge hmin hmax n
  have hne : prime v n ≠ idFalse := by
    rw [hp, idFalse]
    rw [minId_eq] at hmin
    omega
  have hdiv : prime v n / 2 ^ 48 = n := by
    rw [hp]
    rw [maxId_eq] at hmax
    omega
  rw [frameOf, joinFrames, unprime_prime hmax, hdiv, bne_iff_ne.mpr hne, Bool.true_and]

end PME
