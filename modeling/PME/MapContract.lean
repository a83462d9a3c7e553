import PME.MapSolver

namespace PME

open Outcome

structure IDSet (ids : List ℕ) : Prop where
  nodup : ids.Nodup
  even : ∀ id ∈ ids, id % 2 = 0
  ge : ∀ id ∈ ids, minId ≤ id

def seedVal (t : Finset ℕ) : Assignment := fun v ↦ decide (v ∈ t)

@[simp] theorem seedVal_eq_true {t : Finset ℕ} {v : ℕ} : seedVal t v = true ↔ v ∈ t :=
  decide_eq_true_iff

def IsSeed (ids : List ℕ) (P : Finset ℕ → Prop) : Option Seed → Prop
  | none => ∀ t ⊆ ids.toFinset, ¬ P t
  | some seed => seed.Sublist ids ∧ P seed.toFinset

def IsMinimalSeed (ids : List ℕ) (P : Finset ℕ → Prop) (r : Option Seed) : Prop :=
  IsSeed ids P r ∧ ∀ seed, r = some seed → ∀ t ⊆ ids.toFinset, P t → seed.length ≤ t.card

def IsMaximalSeed (ids : List ℕ) (P : Finset ℕ → Prop) (r : Option Seed) : Prop :=
  IsSeed ids P r ∧ ∀ seed, r = some seed → ∀ t ⊆ ids.toFinset, P t → t.card ≤ seed.length

def Over (ids : List ℕ) (cls : Clause) : Prop := ∀ lit ∈ cls, strip lit ∈ ids ∨ strip lit = idFalse

/-- What its users rely on when they block and check seeds: a map remembers which subsets of the IDs
satisfy all clauses. `Rep P x` says that these are the subsets with property `P`. -/
structure MapSolver.Blocks {M : Type} (V : MapSolver M) (ids : List ℕ)
    (Rep : (Finset ℕ → Prop) → M → Prop) : Prop where
  idSet : IDSet ids
  ids_eq : ∀ {P x}, Rep P x → V.ids x = ids
  congr : ∀ {P Q x}, Rep P x → (∀ t ⊆ ids.toFinset, P t ↔ Q t) → Rep Q x
  addClause : ∀ {P x cls}, Rep P x → cls ≠ [] → Over ids cls →
    Meets (Rep fun t ↦ P t ∧ satClause (seedVal t) cls) (fun _ ↦ False) (V.addClauseToSolver x cls)
  checkSeed : ∀ {P x} (seed : Seed), Rep P x →
    Meets (fun r ↦ Rep P r.2 ∧ (r.1 = true ↔ P (ids.toFinset ∩ seed.toFinset))) (fun _ ↦ False)
      (V.checkSeed x seed)

/-- Searches answer accordingly, and only they may fail. Each takes from a supply: in a state with
`Rep n` there is enough for `n` of them. -/
structure MapSolver.Contract {M : Type} (V : MapSolver M) (ids : List ℕ)
    (Rep : ℕ → (Finset ℕ → Prop) → M → Prop) (fail : Failure → Prop) : Prop where
  blocks : ∀ n, V.Blocks ids (Rep n)
  fewer : ∀ {m n P x}, m ≤ n → Rep n P x → Rep m P x
  findSeed : ∀ {n P x}, Rep (n + 1) P x →
    Meets (fun r ↦ Rep n P r.2 ∧ IsSeed ids P r.1) fail (V.findSeed x)

structure MapSolver.FindsMinimal {M : Type} (V : MapSolver M) (ids : List ℕ)
    (Rep : ℕ → (Finset ℕ → Prop) → M → Prop) (fail : Failure → Prop) : Prop where
  findMinimalSeed : ∀ {n P x}, Rep (n + 1) P x →
    Meets (fun r ↦ Rep n P r.2 ∧ IsMinimalSeed ids P r.1) fail (V.findMinimalSeed x)

structure MapSolver.FindsMaximal {M : Type} (V : MapSolver M) (ids : List ℕ)
    (Rep : ℕ → (Finset ℕ → Prop) → M → Prop) (fail : Failure → Prop) : Prop where
  findMaximalSeed : ∀ {n P x}, Rep (n + 1) P x →
    Meets (fun r ↦ Rep n P r.2 ∧ IsMaximalSeed ids P r.1) fail (V.findMaximalSeed x)

section Clauses

variable {ids : List ℕ} {seed : Seed} {fail : Failure → Prop} {t : Finset ℕ}

theorem IDSet.not_negated (h : IDSet ids) {id : ℕ} (hid : id ∈ ids) : (!isNegated id) = true := by
  rw [(isNegated_eq_false id).mpr (h.even id hid)]
  rfl

theorem IDSet.strip (h : IDSet ids) {id : ℕ} (hid : id ∈ ids) : strip id = id :=
  strip_of_even (h.even id hid)

theorem IDSet.const (h : IDSet ids) : idFalse ∉ ids := fun hid ↦ by
  have hge := h.ge _ hid
  rw [minId_eq, idFalse] at hge
  omega

theorem IDSet.litVal (h : IDSet ids) {id : ℕ} (hid : id ∈ ids) (σ : Assignment) :
    litVal σ id = σ id := litVal_of_even (h.even id hid)

theorem downClause_meets (h : IDSet ids) :
    Meets (· = ids.filter (!seed.contains ·)) fail (downClause ids seed) := by
  refine foldlM_meets (fun done cls ↦ cls = done.filter (!seed.contains ·)) [] rfl ?_
  intro done id rest cls hl hcls
  have hid : id ∈ ids := by rw [← hl]; exact List.mem_append_right _ List.mem_cons_self
  rw [h.not_negated hid, ensure_true, ok_bind, meets_pure, List.filter_append, hcls,
    List.filter_cons, List.filter_nil]
  cases seed.contains id with
  | false => rfl
  | true => exact (List.append_nil _).symm

theorem upClause_meets (h : IDSet ids) (hsub : seed ⊆ ids) :
    Meets (· = negateVec seed) fail (upClause seed) := by
  refine foldlM_meets (fun done cls ↦ cls = negateVec done) [] rfl ?_
  intro done id rest cls hl hcls
  have hid : id ∈ ids := hsub (by rw [← hl]; exact List.mem_append_right _ List.mem_cons_self)
  rw [h.not_negated hid, ensure_true, ok_bind, meets_pure, hcls, negateVec, negateVec,
    List.map_append]
  rfl

theorem satClause_downClause (h : IDSet ids) (ht : t ⊆ ids.toFinset) :
    satClause (seedVal t) (ids.filter (!seed.contains ·)) ↔ ¬ t ⊆ seed.toFinset := by
  rw [Finset.not_subset]
  constructor
  · intro hc
    obtain ⟨id, hid, hv⟩ := hc
    obtain ⟨hmem, hs⟩ := List.mem_filter.mp hid
    rw [h.litVal hmem, seedVal_eq_true] at hv
    refine ⟨id, hv, fun hin ↦ ?_⟩
    rw [List.contains_iff_mem.mpr (List.mem_toFinset.mp hin)] at hs
    exact Bool.false_ne_true hs
  · intro hc
    obtain ⟨id, hid, hs⟩ := hc
    have hmem : id ∈ ids := List.mem_toFinset.mp (ht hid)
    refine ⟨id, List.mem_filter.mpr ⟨hmem, ?_⟩, ?_⟩
    · rw [Bool.not_eq_true', ← Bool.not_eq_true, List.contains_iff_mem]
      exact fun hin ↦ hs (List.mem_toFinset.mpr hin)
    · rw [h.litVal hmem, seedVal_eq_true]
      exact hid

theorem satClause_upClause (h : IDSet ids) (hsub : seed ⊆ ids) :
    satClause (seedVal t) (negateVec seed) ↔ ¬ seed.toFinset ⊆ t := by
  rw [satClause_negateVec]
  refine not_congr ⟨fun hc id hid ↦ ?_, fun hc id hid ↦ ?_⟩
  · have hv := hc id (List.mem_toFinset.mp hid)
    rw [h.litVal (hsub (List.mem_toFinset.mp hid)), seedVal_eq_true] at hv
    exact hv
  · rw [h.litVal (hsub hid), seedVal_eq_true]
    exact hc (List.mem_toFinset.mpr hid)

theorem satClause_nonemptyClause (h : IDSet ids) (ht : t ⊆ ids.toFinset) (cls : Clause) :
    satClause (seedVal t) (MapSolver.nonemptyClause cls) ↔ satClause (seedVal t) cls := by
  cases cls with
  | cons lit cls => exact Iff.rfl
  | nil =>
    have hfalse : seedVal t idFalse = false :=
      decide_eq_false fun hid ↦ h.const (List.mem_toFinset.mp (ht hid))
    refine ⟨fun hc ↦ ?_, fun hc ↦ absurd hc not_satClause_nil⟩
    obtain ⟨lit, hl, hv⟩ := hc
    rw [List.mem_singleton.mp hl, litVal_idFalse, hfalse] at hv
    exact absurd hv Bool.false_ne_true

theorem over_nonemptyClause {cls : Clause} (h : Over ids cls) :
    MapSolver.nonemptyClause cls ≠ [] ∧ Over ids (MapSolver.nonemptyClause cls) := by
  cases cls with
  | cons lit cls => exact ⟨List.cons_ne_nil _ _, h⟩
  | nil =>
    refine ⟨List.cons_ne_nil _ _, fun lit hl ↦ .inr ?_⟩
    rw [List.mem_singleton.mp hl]
    rfl

end Clauses

namespace MapSolver.Blocks

variable {M : Type} {V : MapSolver M} {ids : List ℕ} {Rep : (Finset ℕ → Prop) → M → Prop}
  {fail : Failure → Prop} {P : Finset ℕ → Prop} {x : M} {seed : Seed}

theorem blockUp (h : V.Blocks ids Rep) (hx : Rep P x) (hsub : seed ⊆ ids) :
    Meets (Rep fun t ↦ P t ∧ ¬ seed.toFinset ⊆ t) fail (V.blockUp x seed) := by
  refine (upClause_meets h.idSet hsub).bind fun cls hcls ↦ ?_
  have hover : Over ids cls := by
    intro lit hl
    rw [hcls] at hl
    obtain ⟨id, hid, rfl⟩ := List.mem_map.mp hl
    rw [strip_negate, h.idSet.strip (hsub hid)]
    exact .inl (hsub hid)
  obtain ⟨hne, hover'⟩ := over_nonemptyClause hover
  refine ((h.addClause hx hne hover').weaken fun _ ↦ False.elim).imp fun x' hx' ↦ h.congr hx' fun t ht ↦ ?_
  rw [satClause_nonemptyClause h.idSet ht, hcls, satClause_upClause h.idSet hsub]

theorem blockDown (h : V.Blocks ids Rep) (hx : Rep P x) :
    Meets (Rep fun t ↦ P t ∧ ¬ t ⊆ seed.toFinset) fail (V.blockDown x seed) := by
  unfold MapSolver.blockDown
  rw [h.ids_eq hx]
  refine (downClause_meets h.idSet).bind fun cls hcls ↦ ?_
  have hover : Over ids cls := by
    intro lit hl
    rw [hcls] at hl
    have hid := (List.mem_filter.mp hl).1
    rw [h.idSet.strip hid]
    exact .inl hid
  obtain ⟨hne, hover'⟩ := over_nonemptyClause hover
  refine ((h.addClause hx hne hover').weaken fun _ ↦ False.elim).imp fun x' hx' ↦ h.congr hx' fun t ht ↦ ?_
  rw [satClause_nonemptyClause h.idSet ht, hcls, satClause_downClause h.idSet ht]

end MapSolver.Blocks

section Weaken

variable {M : Type} {V : MapSolver M} {ids : List ℕ} {Rep : ℕ → (Finset ℕ → Prop) → M → Prop}
  {fail fail' : Failure → Prop}

theorem MapSolver.Contract.weaken (h : V.Contract ids Rep fail) (hf : ∀ e, fail e → fail' e) :
    V.Contract ids Rep fail' where
  blocks := h.blocks
  fewer := h.fewer
  findSeed hx := (h.findSeed hx).weaken hf

theorem MapSolver.FindsMinimal.weaken (h : V.FindsMinimal ids Rep fail) (hf : ∀ e, fail e → fail' e) :
    V.FindsMinimal ids Rep fail' where
  findMinimalSeed hx := (h.findMinimalSeed hx).weaken hf

theorem MapSolver.FindsMaximal.weaken (h : V.FindsMaximal ids Rep fail) (hf : ∀ e, fail e → fail' e) :
    V.FindsMaximal ids Rep fail' where
  findMaximalSeed hx := (h.findMaximalSeed hx).weaken hf

end Weaken

end PME
