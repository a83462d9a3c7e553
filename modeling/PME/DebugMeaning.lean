import PME.DebugRelation

namespace PME

open Outcome

namespace TransitionRelation

variable (tr : TransitionRelation)

structure SuspectFrame (D : Set ℕ) (x : Assignment) : Prop where
  const : x idFalse = false
  gates : ∀ g ∈ tr.gates, g.lhs ∉ D → litVal x g.lhs = (litVal x g.rhs0 && litVal x g.rhs1)

/-- A run of `k` steps from an initial state in which the suspect gates take arbitrary values. -/
structure SuspectRun (D : Set ℕ) (k : ℕ) (x : ℕ → Assignment) : Prop where
  const : ∀ i ≤ k, x i idFalse = false
  init : tr.IsInit (x 0)
  frame : ∀ i < k, tr.SuspectFrame D (x i)
  step : ∀ i < k, tr.Step (x i) (x (i + 1))

def Constrained (k : ℕ) (x : ℕ → Assignment) : Prop := ∀ i < k, satCube (x i) tr.constraints

/-- The two runs agree on the signals of the circuit, and on the latches after the last frame. -/
structure Projects (k : ℕ) (y x : ℕ → Assignment) : Prop where
  const : ∀ i ≤ k, y i idFalse = x i idFalse
  latches : ∀ i ≤ k, ∀ v ∈ tr.latchIDs, y i v = x i v
  signals : ∀ i < k, ∀ v ∈ tr.signals, y i v = x i v

variable {tr}

theorem Projects.litVal_eq {k : ℕ} {x y : ℕ → Assignment} (h : tr.Projects k y x) {i : ℕ} (hi : i < k)
    {lit : ℕ} (hd : tr.Defines lit) : litVal (y i) lit = litVal (x i) lit := by
  refine litVal_congr ?_
  rcases hd with hz | hs
  · rw [hz]
    exact h.const i hi.le
  · exact h.signals i hi _ hs

end TransitionRelation

open TransitionRelation

namespace DebugTransitionRelation

/-- A run of the debug relation in which the debug latches start out high for the gates of `D`
and low for the others. -/
structure DebugRun (d : DebugTransitionRelation) (D : Set ℕ) (k : ℕ) (y : ℕ → Assignment) : Prop where
  const : ∀ i ≤ k, y i idFalse = false
  init : d.IsInit (y 0)
  run : d.IsRun k y
  selects : ∀ g ∈ d.gateIDs, y 0 (d.debugLatchForGate g) = true ↔ g ∈ D

variable {tr : TransitionRelation} {n : ℕ} {d : DebugTransitionRelation} {D : Set ℕ} {k : ℕ}
  {x y : ℕ → Assignment}

theorem satClauses_debugCNF (σ : Assignment) (d : DebugTransitionRelation) (g : AndGate) :
    satClauses σ (d.debugCNF g) ↔ litVal σ g.lhs =
      if litVal σ (d.debugLatchForGate g.lhs) then litVal σ (d.debugPPIForGate g.lhs)
      else litVal σ g.rhs0 && litVal σ g.rhs1 := by
  simp only [debugCNF, AndGate.toCNF, List.map_cons, List.map_nil, List.cons_append, List.nil_append,
    satClauses_cons, satClause_cons, satClauses_nil, not_satClause_nil, litVal_negate, or_false,
    and_true]
  cases litVal σ g.lhs <;> cases litVal σ g.rhs0 <;> cases litVal σ g.rhs1 <;>
    cases litVal σ (d.debugLatchForGate g.lhs) <;> cases litVal σ (d.debugPPIForGate g.lhs) <;> simp

namespace IsDebug

theorem gates (h : IsDebug tr n d) : d.gates = tr.gates := by rw [h.base, copy]

theorem gateIDs (h : IsDebug tr n d) : d.gateIDs = tr.gateIDs := by rw [h.base, copy]

theorem constraints (h : IsDebug tr n d) : d.constraints = [] := by rw [h.base, copy]

theorem bad (h : IsDebug tr n d) : d.bad = tr.bad := by rw [h.base, copy]

theorem gateCNF (h : IsDebug tr n d) : d.gateCNF = d.debugCNF := congrArg (·.gateCNF) h.base

theorem latches (h : IsDebug tr n d) : d.latches = tr.latches ++
    (List.range tr.gateIDs.length).map fun j ↦ ⟨latchAt n j, latchAt n j, idNull⟩ := by
  rw [h.base, copy]

theorem isFrame_iff (h : IsDebug tr n d) (z : Assignment) : d.IsFrame z ↔ z idFalse = false ∧
    ∀ g ∈ tr.gates, litVal z g.lhs =
      if litVal z (d.debugLatchForGate g.lhs) then litVal z (d.debugPPIForGate g.lhs)
      else litVal z g.rhs0 && litVal z g.rhs1 := by
  have hg : satClauses z d.toCNF ↔ ∀ g ∈ tr.gates, litVal z g.lhs =
      if litVal z (d.debugLatchForGate g.lhs) then litVal z (d.debugPPIForGate g.lhs)
      else litVal z g.rhs0 && litVal z g.rhs1 := by
    rw [toCNF, h.gateCNF, h.gates, satClauses_flatMap]
    exact forall₂_congr fun g _ ↦ satClauses_debugCNF z d g
  constructor
  · intro hf
    exact ⟨hf.const, hg.mp hf.gates⟩
  · rintro ⟨hc, hgates⟩
    refine ⟨hc, hg.mpr hgates, ?_⟩
    rw [h.constraints]
    exact satCube_nil

/-- The debug latches keep their values in a step, and the others step as before. -/
theorem step_iff (h : IsDebug tr n d) (z w : Assignment) : d.Step z w ↔ tr.Step z w ∧
    ∀ j < tr.gateIDs.length, w (latchAt n j) = litVal z (latchAt n j) := by
  rw [Step, h.latches, List.forall_mem_append, List.forall_mem_map]
  simp only [List.mem_range]
  rfl

theorem isInit_iff (h : IsDebug tr n d) (z : Assignment) : d.IsInit z ↔ tr.IsInit z := by
  rw [IsInit, h.latches, List.forall_mem_append, List.forall_mem_map]
  exact ⟨fun hall ↦ hall.1, fun hall ↦ ⟨hall, fun _ _ hr ↦ absurd rfl hr⟩⟩

theorem debugLatch_mem (h : IsDebug tr n d) {g : ℕ} (hg : g ∈ tr.gateIDs) :
    ∃ j < tr.gateIDs.length, tr.gateIDs[j]? = some g ∧ d.debugLatchForGate g = latchAt n j ∧
      d.debugPPIForGate g = ppiAt n j := by
  obtain ⟨j, hj, rfl⟩ := List.mem_iff_getElem.mp hg
  exact ⟨j, hj, List.getElem?_eq_getElem hj, h.latch j hj, h.ppi j hj⟩

theorem latch_constant (h : IsDebug tr n d) (heven : n % 2 = 0) (hrun : d.IsRun k y) {g : ℕ}
    (hg : g ∈ tr.gateIDs) : ∀ i ≤ k, y i (d.debugLatchForGate g) = y 0 (d.debugLatchForGate g) := by
  obtain ⟨j, hj, -, hl, -⟩ := h.debugLatch_mem hg
  rw [hl]
  intro i
  induction i with
  | zero => exact fun _ ↦ rfl
  | succ i ih =>
    intro hi
    have hstep := ((h.step_iff _ _).mp (hrun i hi).2).2 j hj
    rw [hstep, litVal_of_even (by rw [latchAt]; omega)]
    exact ih (by omega)

theorem suspectRun (h : IsDebug tr n d) (hwf : tr.WellFormed) (heven : n % 2 = 0)
    (hy : d.DebugRun D k y) (hp : tr.Projects k y x) : tr.SuspectRun D k x where
  const i hi := by
    rw [← hp.const i hi]
    exact hy.const i hi
  init := by
    have hinit := (h.isInit_iff _).mp hy.init
    intro l hl hr
    have hreset : litVal (y 0) l.reset = litVal (x 0) l.reset := by
      refine litVal_congr ?_
      rcases hwf.reset l hl with hz | hz | hz
      · exact absurd hz hr
      · rw [hz]
        exact hp.const 0 (Nat.zero_le k)
      · rw [hz, strip_idTrue]
        exact hp.const 0 (Nat.zero_le k)
    rw [← hp.latches 0 (Nat.zero_le k) _ (hwf.latch_mem hl), ← hreset]
    exact hinit l hl hr
  frame i hi := by
    obtain ⟨hc, hgates⟩ := (h.isFrame_iff _).mp (hy.run i hi).1
    refine ⟨hp.const i hi.le ▸ hc, fun g hg hD ↦ ?_⟩
    have hmem := hwf.gate_mem hg
    obtain ⟨j, -, -, hl, -⟩ := h.debugLatch_mem hmem
    have hlow : litVal (y i) (d.debugLatchForGate g.lhs) = false := by
      have hzero : y 0 (d.debugLatchForGate g.lhs) = false := by
        rw [← Bool.not_eq_true]
        exact fun hhigh ↦ hD ((hy.selects _ (h.gateIDs ▸ hmem)).mp hhigh)
      rw [litVal_of_even (by rw [hl, latchAt]; omega), h.latch_constant heven hy.run hmem i hi.le]
      exact hzero
    have hval := hgates g hg
    obtain ⟨h0, h1⟩ := hwf.rhs_defined g hg
    have hlhs : tr.Defines g.lhs := by
      right
      rw [strip_of_even (hwf.isVar _ (mem_signals.mpr (.inr hmem))).2.2]
      exact mem_signals.mpr (.inr hmem)
    rw [hlow] at hval
    rw [← hp.litVal_eq hi hlhs, ← hp.litVal_eq hi h0, ← hp.litVal_eq hi h1]
    exact hval
  step i hi l hl := by
    have hstep := ((h.step_iff _ _).mp (hy.run i hi).2).1 l hl
    rw [← hp.latches (i + 1) hi _ (hwf.latch_mem hl), ← hp.litVal_eq hi (hwf.next l hl)]
    exact hstep

/-- The run of the debug relation over a run with suspect gates: a debug input is the value
of its gate. -/
noncomputable def lift (tr : TransitionRelation) (n : ℕ) (D : Set ℕ) (x : ℕ → Assignment) :
    ℕ → Assignment :=
  open Classical in
  fun i v ↦ if v < n then x i v
    else if (v - n) % 4 = 0 then decide (tr.gateIDs.getD ((v - n) / 4) 0 ∈ D)
    else x i (tr.gateIDs.getD ((v - n) / 4) 0)

theorem lift_old {v : ℕ} (hv : v < n) (i : ℕ) : lift tr n D x i v = x i v := if_pos hv

theorem lift_latch {j : ℕ} (i : ℕ) :
    lift tr n D x i (latchAt n j) = true ↔ tr.gateIDs.getD j 0 ∈ D := by
  classical
  have hlt : ¬ latchAt n j < n := by
    rw [latchAt]
    omega
  have hmod : (latchAt n j - n) % 4 = 0 := by
    rw [latchAt]
    omega
  have hdiv : (latchAt n j - n) / 4 = j := by
    rw [latchAt]
    omega
  rw [lift, if_neg hlt, if_pos hmod, hdiv, decide_eq_true_iff]

theorem lift_ppi {j : ℕ} (i : ℕ) :
    lift tr n D x i (ppiAt n j) = x i (tr.gateIDs.getD j 0) := by
  have hlt : ¬ ppiAt n j < n := by
    rw [ppiAt]
    omega
  have hmod : (ppiAt n j - n) % 4 ≠ 0 := by
    rw [ppiAt]
    omega
  have hdiv : (ppiAt n j - n) / 4 = j := by
    rw [ppiAt]
    omega
  rw [lift, if_neg hlt, if_neg hmod, hdiv]

theorem lift_litVal (hmin : minId ≤ n) (hold : ∀ v ∈ tr.signals, v < n) {lit : ℕ} (hd : tr.Defines lit)
    (i : ℕ) : litVal (lift tr n D x i) lit = litVal (x i) lit := by
  refine litVal_congr ?_
  rcases hd with hz | hs
  · rw [hz]
    exact lift_old (Nat.lt_of_lt_of_le (by decide) hmin) i
  · exact lift_old (hold _ hs) i

theorem lift_selects (h : IsDebug tr n d) {g : ℕ} (hg : g ∈ tr.gateIDs) (i : ℕ) :
    lift tr n D x i (d.debugLatchForGate g) = true ↔ g ∈ D := by
  obtain ⟨j, hj, hget, hl, -⟩ := h.debugLatch_mem hg
  rw [hl, lift_latch, List.getD_eq_getElem?_getD, hget]
  rfl

theorem isFrame_lift (h : IsDebug tr n d) (hwf : tr.WellFormed) (heven : n % 2 = 0) (hmin : minId ≤ n)
    (hold : ∀ v ∈ tr.signals, v < n) {i : ℕ} (hx : tr.SuspectFrame D (x i)) : d.IsFrame (lift tr n D x i) := by
  rw [h.isFrame_iff, lift_old (Nat.lt_of_lt_of_le (by decide) hmin)]
  refine ⟨hx.const, fun g hg ↦ ?_⟩
  have hmem := hwf.gate_mem hg
  obtain ⟨j, hj, hget, hl, hppi⟩ := h.debugLatch_mem hmem
  have hvar := hwf.isVar _ (mem_signals.mpr (.inr hmem))
  obtain ⟨h0, h1⟩ := hwf.rhs_defined g hg
  have hlhs : tr.Defines g.lhs := by
    right
    rw [strip_of_even hvar.2.2]
    exact mem_signals.mpr (.inr hmem)
  have hsel := h.lift_selects (D := D) (x := x) hmem i
  have hleven : d.debugLatchForGate g.lhs % 2 = 0 := by
    rw [hl, latchAt]
    omega
  rw [← litVal_of_even (σ := lift tr n D x i) hleven] at hsel
  by_cases hD : g.lhs ∈ D
  · have hpeven : ppiAt n j % 2 = 0 := by
      rw [ppiAt]
      omega
    rw [if_pos (hsel.mpr hD), hppi, litVal_of_even hpeven, lift_ppi, List.getD_eq_getElem?_getD,
      hget, lift_litVal hmin hold hlhs, litVal_of_even hvar.2.2]
    rfl
  · rw [if_neg (mt hsel.mp hD), lift_litVal hmin hold hlhs, lift_litVal hmin hold h0, lift_litVal hmin hold h1]
    exact hx.gates g hg hD

theorem step_lift (h : IsDebug tr n d) (hwf : tr.WellFormed) (heven : n % 2 = 0) (hmin : minId ≤ n)
    (hold : ∀ v ∈ tr.signals, v < n) {i : ℕ} (hx : tr.Step (x i) (x (i + 1))) :
    d.Step (lift tr n D x i) (lift tr n D x (i + 1)) := by
  rw [h.step_iff]
  refine ⟨fun l hl ↦ ?_, fun j hj ↦ ?_⟩
  · rw [lift_litVal hmin hold (hwf.next l hl), lift_old (hold _ ?_)]
    · exact hx l hl
    · exact mem_signals.mpr (.inl (List.mem_append_right _ (hwf.latch_mem hl)))
  · rw [litVal_of_even (by rw [latchAt]; omega), Bool.eq_iff_iff, lift_latch, lift_latch]

/-- Every run with suspect gates comes from a run of the debug relation, whether or not the
constraints hold in it. -/
theorem debugRun_lift (h : IsDebug tr n d) (hwf : tr.WellFormed) (heven : n % 2 = 0)
    (hmin : minId ≤ n) (hold : ∀ v ∈ tr.signals, v < n) (hx : tr.SuspectRun D k x) :
    d.DebugRun D k (lift tr n D x) ∧ tr.Projects k (lift tr n D x) x := by
  have hconst : idFalse < n := Nat.lt_of_lt_of_le (by decide) hmin
  have hp : tr.Projects k (lift tr n D x) x := by
    refine ⟨fun i _ ↦ lift_old hconst i, fun i _ v hv ↦ lift_old (hold v ?_) i,
      fun i _ v hv ↦ lift_old (hold v hv) i⟩
    exact mem_signals.mpr (.inl (List.mem_append_right _ hv))
  refine ⟨⟨fun i hi ↦ ?_, ?_, fun i hi ↦ ⟨?_, ?_⟩, fun g hg ↦ ?_⟩, hp⟩
  · rw [lift_old hconst]
    exact hx.const i hi
  · rw [h.isInit_iff]
    intro l hl hr
    have hreset : tr.Defines l.reset := by
      rcases hwf.reset l hl with hz | hz | hz
      · exact absurd hz hr
      · rw [hz]
        exact .inl rfl
      · rw [hz]
        exact .inl rfl
    rw [lift_litVal hmin hold hreset, lift_old (hold _ ?_)]
    · exact hx.init l hl hr
    · exact mem_signals.mpr (.inl (List.mem_append_right _ (hwf.latch_mem hl)))
  · exact h.isFrame_lift hwf heven hmin hold (hx.frame i hi)
  · exact h.step_lift hwf heven hmin hold (hx.step i hi)
  · exact h.lift_selects (h.gateIDs ▸ hg) 0

end IsDebug

/-- The runs of the debug relation, projected, are the runs with suspect gates that satisfy the
constraints, exactly when all runs with suspect gates do. -/
theorem fromRelation_meaning {vm : VariableManager} (hwf : tr.WellFormed) (hvm : vm.Inv)
    (hold : ∀ v ∈ tr.signals, v < vm.nextID) :
    Meets (fun r ↦ ∀ (D : Set ℕ) k,
        ((∀ x, (∃ y, r.1.DebugRun D k y ∧ tr.Projects k y x) ↔
            tr.SuspectRun D k x ∧ tr.Constrained k x) ↔
          ∀ x, tr.SuspectRun D k x → tr.Constrained k x) ∧
        ∀ y, r.1.IsRun k y → ∀ g ∈ tr.gateIDs, ∀ i ≤ k,
          y i (r.1.debugLatchForGate g) = y 0 (r.1.debugLatchForGate g))
      (fun e ↦ e = .idsExhausted ∧ maxId + 1 < vm.nextID + 4 * tr.gateIDs.length)
      (fromRelation vm tr) := by
  refine (fromRelation_meets hwf hvm hold).imp fun r hr ↦ ?_
  obtain ⟨h, -, -⟩ := hr
  intro D k
  refine ⟨?_, fun y hy g hg ↦ h.latch_constant hvm.even hy hg⟩
  have hruns : ∀ x, (∃ y, r.1.DebugRun D k y ∧ tr.Projects k y x) ↔ tr.SuspectRun D k x := by
    intro x
    constructor
    · rintro ⟨y, hy, hp⟩
      exact h.suspectRun hwf hvm.even hy hp
    · intro hx
      exact ⟨_, h.debugRun_lift hwf hvm.even hvm.minId_le hold hx⟩
  constructor
  · intro hiff x hx
    exact ((hiff x).mp ((hruns x).mpr hx)).2
  · intro himp x
    rw [hruns]
    exact ⟨fun hx ↦ ⟨hx, himp x hx⟩, fun hx ↦ hx.1⟩

def guarded : Aiger where
  maxvar := 2
  inputs := [2]
  latches := []
  ands := [⟨4, 2, 2⟩]
  outputs := [4]
  constraints := [2]

theorem guarded_wellFormed : guarded.WellFormed where
  maxvar_lt := by decide
  isVar := by decide
  nodup := by decide
  next := by decide
  reset := by decide
  rhs := by decide
  constraints := by decide
  outputs := by decide
  acyclic := ⟨id, by decide⟩

def guardedRelation : TransitionRelation where
  bad := 6
  latches := []
  gates := [⟨6, 4, 4⟩]
  latchIDs := []
  inputIDs := [4]
  gateIDs := [6]
  constraints := [4]
  gateCNF := AndGate.toCNF

def guardedVars : VariableManager where
  nextID := 8
  vars := [(6, 4), (4, 2), (2, 0)]
  internalToExternal := [(6, 4), (4, 2), (2, 0)]
  externalToInternal := [(4, 6), (2, 4), (0, 2)]

theorem fromAiger_guarded : fromAiger .new guarded = .ok (guardedRelation, guardedVars) := rfl

theorem built_guarded : Built guarded guardedRelation guardedVars ∧
    ∃ o ∈ guarded.outputs, LitOf guardedVars o guardedRelation.bad := by
  have hm : Meets _ (fun _ ↦ False) (fromAiger .new guarded) := fromAiger_meets guarded_wellFormed
  exact hm.of_ok fromAiger_guarded

theorem guardedRelation_wellFormed : guardedRelation.WellFormed :=
  built_guarded.1.wellFormed guarded_wellFormed built_guarded.2

theorem guarded_meaning : ∃ d vm, fromRelation guardedVars guardedRelation = .ok (d, vm) ∧
    ∀ (D : Set ℕ) k,
      (∀ x, (∃ y, d.DebugRun D k y ∧ guardedRelation.Projects k y x) ↔
          guardedRelation.SuspectRun D k x ∧ guardedRelation.Constrained k x) ↔
        ∀ x, guardedRelation.SuspectRun D k x → guardedRelation.Constrained k x := by
  have h := fromRelation_meaning guardedRelation_wellFormed built_guarded.1.inv (by decide)
  cases hr : fromRelation guardedVars guardedRelation with
  | ok r =>
    rw [hr] at h
    exact ⟨r.1, r.2, rfl, fun D k ↦ (h D k).1⟩
  | error e =>
    rw [hr] at h
    exact absurd h.2 (by decide)

/-- The constraint is lost: with no suspect gate, the debug relation lets the input be low. -/
theorem fromRelation_meaning_fails : ¬ ∀ (tr : TransitionRelation) (vm : VariableManager),
    tr.WellFormed → vm.Inv → (∀ v ∈ tr.signals, v < vm.nextID) →
    ∀ d vm', fromRelation vm tr = .ok (d, vm') → ∀ (D : Set ℕ), (∀ g ∈ D, g ∈ tr.gateIDs) → ∀ k x,
      (∃ y, d.DebugRun D k y ∧ tr.Projects k y x) ↔ tr.SuspectRun D k x ∧ tr.Constrained k x := by
  intro hall
  have hwf := guardedRelation_wellFormed
  have hinv := built_guarded.1.inv
  have hm := fromRelation_meets hwf hinv (by decide)
  cases hr : fromRelation guardedVars guardedRelation with
  | error e =>
    rw [hr] at hm
    exact absurd hm.2 (by decide)
  | ok r =>
    rw [hr] at hm
    have hlow : guardedRelation.SuspectRun ∅ 1 fun _ _ ↦ false := by
      refine ⟨fun _ _ ↦ rfl, nofun, fun i _ ↦ ⟨rfl, ?_⟩, fun i _ ↦ nofun⟩
      intro g hg _
      obtain rfl := List.mem_singleton.mp hg
      rfl
    have hrun := hm.1.debugRun_lift hwf hinv.even hinv.minId_le (by decide) hlow
    have hcon := ((hall _ _ hwf hinv (by decide) r.1 r.2 hr ∅ nofun 1 _).mp ⟨_, hrun⟩).2
    have hval := hcon 0 Nat.one_pos 4 List.mem_cons_self
    exact absurd hval (by decide)

theorem IsDebug.signals_eq (h : IsDebug tr n d) :
    d.signals = tr.inputIDs ++ (List.range tr.gateIDs.length).map (ppiAt n) ++
      (tr.latchIDs ++ (List.range tr.gateIDs.length).map (latchAt n)) ++ tr.gateIDs := by
  rw [signals, h.base, copy]

theorem IsDebug.mem_signals_iff (h : IsDebug tr n d) (v : ℕ) : v ∈ d.signals ↔ v ∈ tr.signals ∨
    ∃ j < tr.gateIDs.length, v = latchAt n j ∨ v = ppiAt n j := by
  rw [h.signals_eq, signals]
  simp only [List.mem_append, List.mem_map, List.mem_range]
  constructor
  · rintro (((hv | ⟨j, hj, rfl⟩) | (hv | ⟨j, hj, rfl⟩)) | hv)
    exacts [.inl (.inl (.inl hv)), .inr ⟨j, hj, .inr rfl⟩, .inl (.inl (.inr hv)),
      .inr ⟨j, hj, .inl rfl⟩, .inl (.inr hv)]
  · rintro (((hv | hv) | hv) | ⟨j, hj, rfl | rfl⟩)
    exacts [.inl (.inl (.inl hv)), .inl (.inr (.inl hv)), .inr hv,
      .inl (.inr (.inr ⟨j, hj, rfl⟩)), .inl (.inl (.inr ⟨j, hj, rfl⟩))]

theorem IsDebug.wellFormed (h : IsDebug tr n d) (hwf : tr.WellFormed) (heven : n % 2 = 0)
    (hmin : minId ≤ n) (hold : ∀ v ∈ tr.signals, v < n)
    (hmax : n + 4 * tr.gateIDs.length ≤ maxId + 1) (hplain : tr.gateCNF = AndGate.toCNF) :
    d.WellFormed := by
  have hmem := h.mem_signals_iff
  have hdefines : ∀ lit, tr.Defines lit → d.Defines lit := by
    rintro lit (hz | hs)
    · exact .inl hz
    · exact .inr ((hmem _).mpr (.inl hs))
  have hvar : ∀ v ∈ d.signals, minId ≤ v ∧ v ≤ maxId ∧ v % 2 = 0 := by
    intro v hv
    rw [minId_eq] at hmin ⊢
    rcases (hmem v).mp hv with hv | ⟨j, hj, rfl | rfl⟩
    · exact hwf.isVar v hv
    · rw [latchAt]
      omega
    · rw [ppiAt]
      omega
  have hdebug : ∀ g ∈ tr.gates, d.debugLatchForGate g.lhs ∈ d.latchIDs ∧
      d.debugPPIForGate g.lhs ∈ d.inputIDs := by
    intro g hg
    obtain ⟨j, hj, -, hl, hp⟩ := h.debugLatch_mem (hwf.gate_mem hg)
    rw [hl, hp, h.base]
    exact ⟨List.mem_append_right _ (List.mem_map_of_mem (List.mem_range.mpr hj)),
      List.mem_append_right _ (List.mem_map_of_mem (List.mem_range.mpr hj))⟩
  have hvalid : ∀ v ∈ d.signals, ValidLit v := fun v hv ↦
    ⟨Nat.le_trans (by decide) (hvar v hv).1, (hvar v hv).2.1⟩
  have hnext : ∀ l ∈ d.latches, d.Defines l.next ∧ ValidLit l.next ∧ l.id ∈ d.latchIDs ∧
      (l.reset = idNull ∨ l.reset = idFalse ∨ l.reset = idTrue) := by
    intro l hl
    rw [h.latches, List.mem_append] at hl
    rcases hl with hl | hl
    · refine ⟨hdefines _ (hwf.next l hl), (hwf.latches l hl).2.2.2, ?_, hwf.reset l hl⟩
      rw [h.base]
      exact List.mem_append_left _ (hwf.latch_mem hl)
    · obtain ⟨j, hj, rfl⟩ := List.mem_map.mp hl
      have hs : latchAt n j ∈ d.signals := (hmem _).mpr (.inr ⟨j, List.mem_range.mp hj, .inl rfl⟩)
      refine ⟨.inr ?_, hvalid _ hs, ?_, .inl rfl⟩
      · rw [strip_of_even (hvar _ hs).2.2]
        exact hs
      · rw [h.base]
        exact List.mem_append_right _ (List.mem_map_of_mem hj)
  have hlatchSig : ∀ v ∈ d.latchIDs, v ∈ d.signals := fun v hv ↦
    mem_signals.mpr (.inl (List.mem_append_right _ hv))
  have hinputSig : ∀ v ∈ d.inputIDs, v ∈ d.signals := fun v hv ↦
    mem_signals.mpr (.inl (List.mem_append_left _ hv))
  exact {
    bad := h.bad ▸ hwf.bad
    gates := by
      intro cls hcls lit hlit
      rw [toCNF, h.gateCNF, h.gates, List.mem_flatMap] at hcls
      obtain ⟨g, hg, hcls⟩ := hcls
      obtain ⟨hdl, hdi⟩ := hdebug g hg
      have hl := hvalid _ (hlatchSig _ hdl)
      have hi := hvalid _ (hinputSig _ hdi)
      obtain ⟨hlhs, hr0, hr1⟩ := hwf.ands g hg
      simp only [debugCNF, AndGate.toCNF, List.map_cons, List.map_nil, List.cons_append,
        List.nil_append, List.mem_cons, List.not_mem_nil, or_false] at hcls
      rcases hcls with rfl | rfl | rfl | rfl | rfl
      all_goals
        simp only [List.mem_cons, List.not_mem_nil, or_false] at hlit
        rcases hlit with rfl | rfl | rfl | rfl
      all_goals first | assumption | exact ValidLit.negate ‹_›
    latches := by
      intro l hl
      obtain ⟨-, hv, hid, -⟩ := hnext l hl
      obtain ⟨hlo, hhi, hev⟩ := hvar _ (hlatchSig _ hid)
      exact ⟨hlo, hhi, hev, hv⟩
    reset := fun l hl ↦ (hnext l hl).2.2.2
    constraints := by
      rw [h.constraints]
      exact fun _ hc ↦ absurd hc List.not_mem_nil
    ands := by
      rw [h.gates]
      exact hwf.ands
    latchIDs_eq := by
      rw [h.base, hwf.latchIDs_eq]
      simp [Function.comp_def]
    gateIDs_eq := by
      rw [h.base]
      exact hwf.gateIDs_eq
    isVar := hvar
    nodup := by
      have hn := hwf.nodup
      rw [h.signals_eq]
      rw [signals] at hn
      have hp : ((List.range tr.gateIDs.length).map (ppiAt n)).Nodup :=
        List.nodup_range.map fun a b hab ↦ by simp only [ppiAt] at hab; omega
      have hl : ((List.range tr.gateIDs.length).map (latchAt n)).Nodup :=
        List.nodup_range.map fun a b hab ↦ by simp only [latchAt] at hab; omega
      have hin : ∀ v ∈ tr.inputIDs, v < n := fun v hv ↦
        hold v (mem_signals.mpr (.inl (List.mem_append_left _ hv)))
      have hla : ∀ v ∈ tr.latchIDs, v < n := fun v hv ↦
        hold v (mem_signals.mpr (.inl (List.mem_append_right _ hv)))
      have hga : ∀ v ∈ tr.gateIDs, v < n := fun v hv ↦ hold v (mem_signals.mpr (.inr hv))
      simp only [List.nodup_append, List.mem_append, List.mem_map, List.mem_range] at hn ⊢
      obtain ⟨⟨hi, hlat, hil⟩, hg, hilg⟩ := hn
      refine ⟨⟨⟨hi, hp, ?_⟩, ⟨hlat, hl, ?_⟩, ?_⟩, hg, ?_⟩
      · rintro a ha _ ⟨j, -, rfl⟩
        have := hin a ha
        rw [ppiAt]
        omega
      · rintro a ha _ ⟨j, -, rfl⟩
        have := hla a ha
        rw [latchAt]
        omega
      · rintro a (ha | ⟨j, -, rfl⟩) b (hb | ⟨j', -, rfl⟩)
        · exact hil a ha b hb
        · have := hin a ha
          rw [latchAt]
          omega
        · have := hla b hb
          rw [ppiAt]
          omega
        · rw [ppiAt, latchAt]
          omega
      · rintro a ((ha | ⟨j, -, rfl⟩) | (ha | ⟨j, -, rfl⟩)) b hb
        · exact hilg a (.inl ha) b hb
        · have := hga b hb
          rw [ppiAt]
          omega
        · exact hilg a (.inr ha) b hb
        · have := hga b hb
          rw [latchAt]
          omega
    next := fun l hl ↦ (hnext l hl).1
    constraints_defined := by
      rw [h.constraints]
      exact fun _ hc ↦ absurd hc List.not_mem_nil
    bad_defined := h.bad ▸ hdefines _ hwf.bad_defined
    rhs_defined := by
      intro g hg
      obtain ⟨h0, h1⟩ := hwf.rhs_defined g (h.gates ▸ hg)
      exact ⟨hdefines _ h0, hdefines _ h1⟩
    gates_computed := by
      obtain ⟨rank, hrank⟩ := hwf.gates_computed
      have hbelow : ∀ r v, tr.Below rank r v → d.Below rank r v := by
        rintro r v (hv | hv | ⟨hv, hr⟩)
        · exact .inl hv
        · rw [Below, h.base]
          refine .inr (.inl ?_)
          rcases List.mem_append.mp hv with hv | hv
          · exact List.mem_append_left _ (List.mem_append_left _ hv)
          · exact List.mem_append_right _ (List.mem_append_left _ hv)
        · exact .inr (.inr ⟨h.gateIDs ▸ hv, hr⟩)
      refine ⟨rank, fun g hg ↦ ?_⟩
      have hg' : g ∈ tr.gates := h.gates ▸ hg
      obtain ⟨f, hcnf, hreads⟩ := hrank g hg'
      obtain ⟨hdl, hdi⟩ := hdebug g hg'
      have hdleven := (hvar _ (hlatchSig _ hdl)).2.2
      have hdieven := (hvar _ (hinputSig _ hdi)).2.2
      have hlhs := (hwf.isVar _ (mem_signals.mpr (.inr (hwf.gate_mem hg')))).2.2
      let dl := d.debugLatchForGate g.lhs
      let di := d.debugPPIForGate g.lhs
      refine ⟨fun σ ↦ if σ dl then σ di else f σ, fun σ hσ ↦ ?_, fun σ τ hστ ↦ ?_⟩
      · have hand := hcnf σ hσ
        rw [hplain, satClauses_toCNF, litVal_of_even hlhs] at hand
        rw [h.gateCNF, satClauses_debugCNF, litVal_of_even hlhs, litVal_of_even hdleven,
          litVal_of_even hdieven]
        cases hd : σ dl with
        | true => simp only [di, if_true]
        | false =>
          simp only [Bool.false_eq_true, if_false]
          exact hand
      · have hl : σ dl = τ dl := hστ dl (.inr (.inl (List.mem_append_right _ hdl)))
        have hi : σ di = τ di := hστ di (.inr (.inl (List.mem_append_left _ hdi)))
        have hf : f σ = f τ := hreads σ τ fun v hv ↦ hστ v (hbelow _ v hv)
        simp only [hl, hi, hf] }

end DebugTransitionRelation

end PME
