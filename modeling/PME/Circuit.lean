import PME.Unroll

namespace PME

namespace TransitionRelation

variable (tr : TransitionRelation)

def signals : List ℕ := tr.inputIDs ++ tr.latchIDs ++ tr.gateIDs

def Defines (lit : ℕ) : Prop := strip lit = idFalse ∨ strip lit ∈ tr.signals

instance (lit : ℕ) : Decidable (tr.Defines lit) := inferInstanceAs (Decidable (_ ∨ _))

def Below (rank : ℕ → ℕ) (r : ℕ) (v : ℕ) : Prop :=
  v = idFalse ∨ v ∈ tr.inputIDs ++ tr.latchIDs ∨ v ∈ tr.gateIDs ∧ rank v < r

structure Computes (rank : ℕ → ℕ) (gate : AndGate) (f : Assignment → Bool) : Prop where
  cnf : ∀ σ, σ idFalse = false → (satClauses σ (tr.gateCNF gate) ↔ σ gate.lhs = f σ)
  reads : ∀ σ τ, (∀ v, tr.Below rank (rank gate.lhs) v → σ v = τ v) → f σ = f τ

/-- Circuits as the constructors make them: signals are distinct variables, literals refer to
signals, and gates form no cycle. -/
structure WellFormed : Prop extends tr.LitsValid where
  latchIDs_eq : tr.latchIDs = tr.latches.map Latch.id
  gateIDs_eq : tr.gateIDs = tr.gates.map AndGate.lhs
  isVar : ∀ v ∈ tr.signals, minId ≤ v ∧ v ≤ maxId ∧ v % 2 = 0
  nodup : tr.signals.Nodup
  next : ∀ l ∈ tr.latches, tr.Defines l.next
  constraints_defined : ∀ c ∈ tr.constraints, tr.Defines c
  bad_defined : tr.Defines tr.bad
  rhs_defined : ∀ g ∈ tr.gates, tr.Defines g.rhs0 ∧ tr.Defines g.rhs1
  gates_computed : ∃ rank, ∀ g ∈ tr.gates, ∃ f, tr.Computes rank g f

variable {tr}

/-- A gate whose clauses are those of an AND gate computes the conjunction of its operands. -/
theorem computes_toCNF (hplain : tr.gateCNF = AndGate.toCNF) {rank : ℕ → ℕ} {g : AndGate}
    (heven : g.lhs % 2 = 0) (h0 : tr.Below rank (rank g.lhs) (strip g.rhs0))
    (h1 : tr.Below rank (rank g.lhs) (strip g.rhs1)) :
    tr.Computes rank g fun σ ↦ litVal σ g.rhs0 && litVal σ g.rhs1 where
  cnf σ _ := by
    rw [hplain, satClauses_toCNF, litVal_of_even heven]
  reads σ τ hστ := by
    rw [litVal, litVal, litVal, litVal, hστ _ h0, hστ _ h1]

theorem WellFormed.latch_mem (h : tr.WellFormed) {l : Latch} (hl : l ∈ tr.latches) :
    l.id ∈ tr.latchIDs := by
  rw [h.latchIDs_eq]
  exact List.mem_map_of_mem hl

theorem WellFormed.gate_mem (h : tr.WellFormed) {g : AndGate} (hg : g ∈ tr.gates) :
    g.lhs ∈ tr.gateIDs := by
  rw [h.gateIDs_eq]
  exact List.mem_map_of_mem hg

theorem WellFormed.latches_nodup (h : tr.WellFormed) : (tr.latches.map Latch.id).Nodup := by
  rw [← h.latchIDs_eq]
  exact (List.nodup_append.mp (List.nodup_append.mp h.nodup).1).2.1

theorem mem_signals {v : ℕ} :
    v ∈ tr.signals ↔ v ∈ tr.inputIDs ++ tr.latchIDs ∨ v ∈ tr.gateIDs := List.mem_append

theorem WellFormed.not_gate (h : tr.WellFormed) {v : ℕ} (hv : v ∈ tr.inputIDs ++ tr.latchIDs) :
    v ∉ tr.gateIDs := fun hg ↦ (List.nodup_append.mp h.nodup).2.2 v hv v hg rfl

theorem WellFormed.gate_unique (h : tr.WellFormed) {g g' : AndGate} (hg : g ∈ tr.gates)
    (hg' : g' ∈ tr.gates) (heq : g.lhs = g'.lhs) : g = g' := by
  have hnodup : (tr.gates.map AndGate.lhs).Nodup := by
    rw [← h.gateIDs_eq]
    exact (List.nodup_append.mp h.nodup).2.1
  exact List.inj_on_of_nodup_map hnodup hg hg' heq

theorem WellFormed.signals_unique (h : tr.WellFormed) {x y : Assignment} (hx : x idFalse = false)
    (hy : y idFalse = false) (hgx : satClauses x tr.toCNF) (hgy : satClauses y tr.toCNF)
    (hxy : ∀ v ∈ tr.inputIDs ++ tr.latchIDs, x v = y v) : ∀ v ∈ tr.signals, x v = y v := by
  obtain ⟨rank, hrank⟩ := h.gates_computed
  rw [toCNF, satClauses_flatMap] at hgx hgy
  have hgates : ∀ n, ∀ g ∈ tr.gates, rank g.lhs < n → x g.lhs = y g.lhs := by
    intro n
    induction n with
    | zero => exact fun g _ hlt ↦ absurd hlt (Nat.not_lt_zero _)
    | succ n ih =>
      intro g hg hlt
      obtain ⟨f, hcnf, hreads⟩ := hrank g hg
      have hf : f x = f y := by
        refine hreads x y fun v hv ↦ ?_
        rcases hv with rfl | hv | ⟨hv, hr⟩
        · rw [hx, hy]
        · exact hxy v hv
        · rw [h.gateIDs_eq] at hv
          obtain ⟨g', hg', rfl⟩ := List.mem_map.mp hv
          exact ih g' hg' (by omega)
      rw [(hcnf x hx).mp (hgx g hg), (hcnf y hy).mp (hgy g hg), hf]
  intro v hv
  rcases mem_signals.mp hv with hv | hv
  · exact hxy v hv
  · rw [h.gateIDs_eq] at hv
    obtain ⟨g, hg, rfl⟩ := List.mem_map.mp hv
    exact hgates _ g hg (Nat.lt_succ_self _)

theorem satClauses_gate_congr {rank : ℕ → ℕ} {g : AndGate} {f : Assignment → Bool}
    (hf : tr.Computes rank g f) {x y : Assignment} (hx : x idFalse = false)
    (hself : x g.lhs = y g.lhs) (hxy : ∀ v, tr.Below rank (rank g.lhs) v → x v = y v) :
    satClauses x (tr.gateCNF g) ↔ satClauses y (tr.gateCNF g) := by
  have hy : y idFalse = false := by
    rw [← hxy idFalse (.inl rfl)]
    exact hx
  rw [hf.cnf x hx, hf.cnf y hy, hself, hf.reads x y hxy]

theorem WellFormed.exists_gates (h : tr.WellFormed) (x : Assignment) (hx : x idFalse = false) :
    ∃ y, (∀ v ∉ tr.gateIDs, y v = x v) ∧ satClauses y tr.toCNF := by
  classical
  obtain ⟨rank, hrank⟩ := h.gates_computed
  have hconst : idFalse ∉ tr.gateIDs := fun hmem ↦
    absurd (h.isVar _ (mem_signals.mpr (.inr hmem))).1 (by decide)
  -- gates are given their values rank by rank
  have hstep : ∀ n, ∃ y : Assignment, (∀ v ∉ tr.gateIDs, y v = x v) ∧
      ∀ g ∈ tr.gates, rank g.lhs < n → satClauses y (tr.gateCNF g) := by
    intro n
    induction n with
    | zero => exact ⟨x, fun _ _ ↦ rfl, fun g _ hlt ↦ absurd hlt (Nat.not_lt_zero _)⟩
    | succ n ih =>
      obtain ⟨y, hy, hyg⟩ := ih
      choose f hf using hrank
      let z : Assignment := fun v ↦
        if hv : ∃ g, ∃ _ : g ∈ tr.gates, g.lhs = v ∧ rank v = n then
          f hv.choose hv.choose_spec.choose y
        else y v
      have hzgate : ∀ g (hg : g ∈ tr.gates), rank g.lhs = n → z g.lhs = f g hg y := by
        intro g hg hr
        have hex : ∃ g', ∃ _ : g' ∈ tr.gates, g'.lhs = g.lhs ∧ rank g.lhs = n := ⟨g, hg, rfl, hr⟩
        have hsame : hex.choose = g :=
          h.gate_unique hex.choose_spec.choose hg hex.choose_spec.choose_spec.1
        have hz : z g.lhs = f hex.choose hex.choose_spec.choose y := dif_pos hex
        rw [hz]
        congr 1
      have hzrest : ∀ v, (∀ g ∈ tr.gates, g.lhs = v → rank v ≠ n) → z v = y v := by
        intro v hv
        refine dif_neg ?_
        rintro ⟨g, hg, hgv, hr⟩
        exact hv g hg hgv hr
      have hzoff : ∀ v ∉ tr.gateIDs, z v = y v := fun v hv ↦
        hzrest v fun g hg hgv _ ↦ hv (hgv ▸ h.gate_mem hg)
      have hyc : y idFalse = false := (hy _ hconst).trans hx
      have hzc : z idFalse = false := (hzoff _ hconst).trans hyc
      have hbelow : ∀ r ≤ n, ∀ v, tr.Below rank r v → z v = y v := by
        intro r hr v hv
        rcases hv with rfl | hv | ⟨hv, hlt⟩
        · exact hzoff _ hconst
        · exact hzoff v (h.not_gate hv)
        · exact hzrest v fun _ _ _ hn ↦ by omega
      refine ⟨z, fun v hv ↦ (hzoff v hv).trans (hy v hv), fun g hg hlt ↦ ?_⟩
      rcases Nat.lt_or_eq_of_le (Nat.le_of_lt_succ hlt) with hlt | heq
      · have hself : z g.lhs = y g.lhs := hzrest _ fun _ _ _ hn ↦ by omega
        exact (satClauses_gate_congr (hf g hg) hzc hself (hbelow _ hlt.le)).mpr (hyg g hg hlt)
      · rw [(hf g hg).cnf z hzc, hzgate g hg heq]
        exact ((hf g hg).reads z y (hbelow _ heq.le)).symm
  obtain ⟨n, hn⟩ : ∃ n, ∀ g ∈ tr.gates, rank g.lhs < n := by
    refine ⟨(tr.gates.map fun g ↦ rank g.lhs).sum + 1, fun g hg ↦ Nat.lt_succ_of_le ?_⟩
    exact List.single_le_sum (fun _ _ ↦ Nat.zero_le _) _ (List.mem_map_of_mem hg)
  obtain ⟨y, hy, hyg⟩ := hstep n
  refine ⟨y, hy, ?_⟩
  rw [toCNF, satClauses_flatMap]
  exact fun g hg ↦ hyg g hg (hn g hg)

theorem WellFormed.toCNF_nonempty (h : tr.WellFormed) : ∀ cls ∈ tr.toCNF, cls ≠ [] := by
  rintro cls hc rfl
  obtain ⟨y, -, hy⟩ := h.exists_gates (fun _ ↦ false) rfl
  exact not_satClause_nil (hy [] hc)

def stuck : TransitionRelation where
  bad := negate 4
  latches := [⟨4, 4, idTrue⟩]
  gates := []
  latchIDs := [4]
  inputIDs := []
  gateIDs := []
  constraints := []
  gateCNF := AndGate.toCNF

theorem stuck_wellFormed : stuck.WellFormed where
  bad := by decide
  gates := by decide
  latches := by decide
  reset := by decide
  constraints := by decide
  ands := by decide
  latchIDs_eq := rfl
  gateIDs_eq := rfl
  isVar := by decide
  nodup := by decide
  next := by decide
  constraints_defined := by decide
  bad_defined := by decide
  rhs_defined := by decide
  gates_computed := ⟨fun _ ↦ 0, nofun⟩

end TransitionRelation

def relay : TransitionRelation where
  bad := 8
  latches := [⟨4, 4, idFalse⟩]
  gates := [⟨6, 4, 4⟩, ⟨8, 6, 6⟩]
  latchIDs := [4]
  inputIDs := []
  gateIDs := [6, 8]
  constraints := []
  gateCNF := AndGate.toCNF

theorem relay_wellFormed : relay.WellFormed where
  bad := by decide
  gates := by decide
  latches := by decide
  reset := by decide
  constraints := by decide
  ands := by decide
  latchIDs_eq := rfl
  gateIDs_eq := rfl
  isVar := by decide
  nodup := by decide
  next := by decide
  constraints_defined := by decide
  bad_defined := by decide
  rhs_defined := by decide
  gates_computed := by
    refine ⟨id, fun g hg ↦ ⟨_, TransitionRelation.computes_toCNF rfl ?_ ?_ ?_⟩⟩
    · revert g
      decide
    all_goals
      cases hg with
      | head => exact .inr (.inl List.mem_cons_self)
      | tail _ hg =>
        obtain rfl := List.mem_singleton.mp hg
        exact .inr (.inr ⟨List.mem_cons_self, by decide⟩)

end PME
