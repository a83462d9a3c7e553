import PME.UnifiedIVC
import PME.MARCOIVC

namespace PME

open Outcome Exploration

namespace TransitionRelation

variable (tr : TransitionRelation)

def isGate (id : ℕ) : Bool := (tr.gates.map AndGate.lhs).contains id

def pushFanout (fanout : ℕ → List ℕ) (operand gate : ℕ) : ℕ → List ℕ :=
  if tr.isGate operand then Function.update fanout operand (fanout operand ++ [gate]) else fanout

/-- The map `gate_to_fanout`. A gate that reads another one twice is entered twice. -/
def gateToFanout : ℕ → List ℕ :=
  tr.gates.foldl (fun fanout gate ↦
    tr.pushFanout (tr.pushFanout fanout (strip gate.rhs0) gate.lhs) (strip gate.rhs1) gate.lhs) fun _ ↦ []

def gatesWithFanout : List ℕ := (idSet tr.gateIDs).filter fun gate ↦ !(tr.gateToFanout gate).isEmpty

def hint (gate : ℕ) : Clause := negate gate :: tr.gateToFanout gate

end TransitionRelation

namespace UnifiedIVCFinder

/-- The clauses that `addCOIToMap` adds. -/
def coiHints (tr : TransitionRelation) : List Clause :=
  let nextStates := tr.latches.map fun latch ↦ strip latch.next
  (tr.gatesWithFanout.filter fun gate ↦
    strip gate != strip tr.bad && !nextStates.contains (strip gate)).map tr.hint

def addCOIToMap {M F : Type} (ctx : UnifiedIVCContext M F) (f : UnifiedIVCFinder M F) :
    Result (UnifiedIVCFinder M F) := do
  let map ← (coiHints ctx.tr).foldlM ctx.mapSolver.addClause f.map
  return { f with map := map }

end UnifiedIVCFinder

namespace MARCOIVCFinder

/-- The clauses that `addExploreHints` adds under these options. -/
def exploreHints (tr : TransitionRelation) (basicHints complexHints : Bool) : List Clause :=
  (tr.gatesWithFanout.filter fun gate ↦
    if (tr.gateToFanout gate).length == 1 && basicHints then true else complexHints).map tr.hint

def addExploreHints (ctx : MARCOIVCContext) (basicHints complexHints : Bool) (f : MARCOIVCFinder) :
    Result MARCOIVCFinder := do
  let map ← (exploreHints ctx.tr basicHints complexHints).foldlM (mapSolver ctx).addClause f.map
  return { f with map := map }

end MARCOIVCFinder

namespace TransitionRelation

variable {tr : TransitionRelation} {gate operand v : ℕ} {t : Finset ℕ}

def Feeds (gate : ℕ) (g : AndGate) : Prop := strip g.rhs0 = gate ∨ strip g.rhs1 = gate

instance (gate : ℕ) (g : AndGate) : Decidable (Feeds gate g) := inferInstanceAs (Decidable (_ ∨ _))

def Useless (tr : TransitionRelation) (gate : ℕ) : Prop :=
  ∀ t ⊆ tr.gateIDs.toFinset, (∀ g ∈ tr.gates, Feeds gate g → g.lhs ∉ t) → SafeGates tr t →
    SafeGates tr (t.erase gate)

def operands (tr : TransitionRelation) : List ℕ :=
  tr.gates.flatMap fun g ↦ [strip g.rhs0, strip g.rhs1]

theorem pushFanout_apply (fanout : ℕ → List ℕ) (operand gate v : ℕ) :
    tr.pushFanout fanout operand gate v =
      fanout v ++ if tr.isGate v ∧ operand = v then [gate] else [] := by
  unfold pushFanout
  by_cases hv : operand = v
  · subst hv
    cases hgate : tr.isGate operand with
    | true => simp
    | false => simp
  · have hno : ¬ (tr.isGate v = true ∧ operand = v) := fun h ↦ hv h.2
    rw [if_neg hno, List.append_nil]
    split_ifs with hgate
    · exact Function.update_of_ne (Ne.symm hv) ..
    · rfl

theorem gateToFanout_apply (hgate : tr.isGate v = true) : tr.gateToFanout v = tr.gates.flatMap fun g ↦
    (if strip g.rhs0 = v then [g.lhs] else []) ++ if strip g.rhs1 = v then [g.lhs] else [] := by
  have hfold : ∀ (gates : List AndGate) (fanout : ℕ → List ℕ), (gates.foldl (fun fanout gate ↦
      tr.pushFanout (tr.pushFanout fanout (strip gate.rhs0) gate.lhs) (strip gate.rhs1) gate.lhs) fanout) v =
      fanout v ++ gates.flatMap fun g ↦
        (if strip g.rhs0 = v then [g.lhs] else []) ++ if strip g.rhs1 = v then [g.lhs] else [] := by
    intro gates
    induction gates with
    | nil => exact fun fanout ↦ (List.append_nil _).symm
    | cons g gates ih =>
      intro fanout
      rw [List.foldl_cons, ih, pushFanout_apply, pushFanout_apply, List.flatMap_cons]
      simp only [hgate, true_and, List.append_assoc]
  exact hfold tr.gates fun _ ↦ []

theorem mem_gateToFanout (hgate : tr.isGate v = true) {id : ℕ} :
    id ∈ tr.gateToFanout v ↔ ∃ g ∈ tr.gates, Feeds v g ∧ g.lhs = id := by
  rw [gateToFanout_apply hgate, List.mem_flatMap]
  refine exists_congr fun g ↦ and_congr_right fun _ ↦ ?_
  rw [List.mem_append, Feeds]
  split_ifs with h₀ h₁ h₁
  all_goals simp [h₀, h₁, eq_comm]

theorem length_gateToFanout (hgate : tr.isGate v = true) :
    (tr.gateToFanout v).length = tr.operands.count v := by
  rw [gateToFanout_apply hgate, operands]
  induction tr.gates with
  | nil => rfl
  | cons g gates ih =>
    rw [List.flatMap_cons, List.flatMap_cons, List.length_append, List.count_append, ih]
    congr 1
    rw [List.length_append, List.count_cons, List.count_cons, List.count_nil, Nat.zero_add, Nat.add_comm]
    congr 1
    all_goals
      split_ifs with h₁ h₂ h₂
      all_goals simp_all

theorem isGate_iff (h : tr.WellFormed) : tr.isGate v = true ↔ v ∈ tr.gateIDs := by
  rw [isGate, List.contains_iff_mem, h.gateIDs_eq]

theorem mem_gatesWithFanout (h : tr.WellFormed) :
    gate ∈ tr.gatesWithFanout ↔ gate ∈ tr.gateIDs ∧ ∃ g ∈ tr.gates, Feeds gate g := by
  rw [gatesWithFanout, List.mem_filter, mem_idSet]
  refine and_congr_right fun hmem ↦ ?_
  have hgate := (isGate_iff h).mpr hmem
  rw [Bool.not_eq_true', List.isEmpty_eq_false_iff_exists_mem]
  constructor
  · rintro ⟨id, hid⟩
    obtain ⟨g, hg, hfeeds, -⟩ := (mem_gateToFanout hgate).mp hid
    exact ⟨g, hg, hfeeds⟩
  · rintro ⟨g, hg, hfeeds⟩
    exact ⟨g.lhs, (mem_gateToFanout hgate).mpr ⟨g, hg, hfeeds, rfl⟩⟩

/-- A set of gates satisfies a hint when the gate is not in it, or some gate that reads it is. -/
theorem satClause_hint (h : tr.WellFormed) (hmem : gate ∈ tr.gateIDs) :
    satClause (seedVal t) (tr.hint gate) ↔ (gate ∈ t → ∃ g ∈ tr.gates, Feeds gate g ∧ g.lhs ∈ t) := by
  have hids : IDSet (idSet tr.gateIDs) := h.gates_idSet
  have hgate := (isGate_iff h).mpr hmem
  rw [hint, satClause_cons, litVal_negate, hids.litVal (mem_idSet.mpr hmem), Bool.not_eq_true',
    ← Bool.not_eq_true, seedVal_eq_true, ← imp_iff_not_or]
  refine imp_congr_right fun _ ↦ ?_
  constructor
  · rintro ⟨id, hid, hv⟩
    obtain ⟨g, hg, hfeeds, rfl⟩ := (mem_gateToFanout hgate).mp hid
    have hlhs : g.lhs ∈ tr.gateIDs := h.gate_mem hg
    rw [hids.litVal (mem_idSet.mpr hlhs), seedVal_eq_true] at hv
    exact ⟨g, hg, hfeeds, hv⟩
  · rintro ⟨g, hg, hfeeds, hin⟩
    refine ⟨g.lhs, (mem_gateToFanout hgate).mpr ⟨g, hg, hfeeds, rfl⟩, ?_⟩
    rw [hids.litVal (mem_idSet.mpr (h.gate_mem hg)), seedVal_eq_true]
    exact hin

/-- The hints of these gates are true of all minimal safe sets exactly when each of the gates is
useless without its fanouts. -/
theorem hints_iff (h : tr.WellFormed) {gates : List ℕ} (hsub : gates ⊆ tr.gateIDs) :
    (∀ t ⊆ tr.gateIDs.toFinset, Minimal (SafeGates tr) t → ∀ cls ∈ gates.map tr.hint,
      satClause (seedVal t) cls) ↔ ∀ gate ∈ gates, tr.Useless gate := by
  constructor
  · intro hall gate hgate t ht hno hsafe
    obtain ⟨s, hle, hmin⟩ := exists_minimal_le_of_wellFoundedLT (SafeGates tr) t hsafe
    refine monotone_safeGates h (fun id hid ↦ ?_) hmin.prop
    refine Finset.mem_erase.mpr ⟨?_, hle hid⟩
    rintro rfl
    have hsat := hall s (hle.trans ht) hmin _ (List.mem_map_of_mem hgate)
    obtain ⟨g, hg, hfeeds, hin⟩ := (satClause_hint h (hsub hgate)).mp hsat hid
    exact hno g hg hfeeds (hle hin)
  · intro huseless t ht hmin cls hcls
    obtain ⟨gate, hgate, rfl⟩ := List.mem_map.mp hcls
    refine (satClause_hint h (hsub hgate)).mpr fun hin ↦ ?_
    by_contra hno
    push Not at hno
    have hsafe := huseless gate hgate t ht hno hmin.prop
    exact Finset.notMem_erase gate t (hmin.le_of_le hsafe (Finset.erase_subset gate t) hin)

def setGate (x : Assignment) (g : AndGate) : Assignment :=
  Function.update x g.lhs (litVal x g.rhs0 && litVal x g.rhs1)

theorem litVal_setGate {x : Assignment} {g : AndGate} {lit : ℕ} (hne : strip lit ≠ g.lhs) :
    litVal (setGate x g) lit = litVal x lit :=
  litVal_congr (Function.update_of_ne hne ..)

/-- A gate that nothing reads is useless: neither a constraint, nor the bad literal, nor a next
state, and all latches that constraints and the bad literal read are in every cone. -/
theorem useless_of_unread (h : tr.WellFormed) (hgate : gate ∈ tr.gateIDs)
    (hread : ∀ lit ∈ tr.bad :: tr.constraints, strip lit ≠ gate)
    (hnext : ∀ l ∈ tr.latches, strip l.next ≠ gate) (hcone : tr.ReadsCone []) : tr.Useless gate := by
  intro t ht hno hsafe
  by_cases hin : gate ∈ t
  · obtain ⟨g, hg, rfl⟩ : ∃ g ∈ tr.gates, g.lhs = gate := by
      rw [h.gateIDs_eq] at hgate
      exact List.mem_map.mp hgate
    have hreads : ∀ gates, tr.ReadsCone gates := fun gates lit hlit hlatch ↦
      (hcone lit hlit hlatch).mono (List.nil_subset _)
    have hsignal : g.lhs ∈ tr.signals := mem_signals.mpr (.inr hgate)
    have hconst : idFalse ≠ g.lhs := fun heq ↦ by
      have hmin := (h.isVar _ hsignal).1
      rw [← heq] at hmin
      exact absurd hmin (by decide)
    refine (safeOver_iff_freeBadAt h).mpr fun k hk ↦ ?_
    obtain ⟨x, hinit, hrun, hbad⟩ := hk.of_readsCone h (hreads _)
    have hlatch : ∀ l ∈ tr.latches, l.id ≠ g.lhs := by
      intro l hl heq
      have hid : l.id ∈ tr.latchIDs := h.latchIDs_eq ▸ List.mem_map_of_mem hl
      exact h.not_gate (List.mem_append_right _ hid) (heq ▸ hgate)
    have hstate : ∀ i, ∀ l ∈ tr.latches, setGate (x i) g l.id = x i l.id := fun i l hl ↦
      Function.update_of_ne (hlatch l hl) ..
    have hrun' : tr.FreeBadAt t.toList Set.univ k := by
      refine ⟨fun i ↦ setGate (x i) g, fun l hl hid hr ↦ ?_,
        fun i hi ↦ ⟨⟨?_, fun g' hg' hS ↦ ?_, fun c hc ↦ ?_⟩, fun l hl hid ↦ ?_⟩, ?_⟩
      · have hreset : strip l.reset = idFalse := by
          rcases h.reset l hl with hz | hz | hz
          · exact absurd hz hr
          · rw [hz]
            rfl
          · rw [hz, strip_idTrue]
        dsimp only
        rw [hstate 0 l hl, litVal_setGate (hreset ▸ hconst)]
        exact hinit l hl hid hr
      · exact (Function.update_of_ne hconst ..).trans (hrun i hi).1.const
      · have hin' : g'.lhs ∈ t := Finset.mem_toList.mp hS
        have hnot : ¬ Feeds g.lhs g' := fun hfeeds ↦ hno g' hg' hfeeds hin'
        obtain ⟨h₀, h₁⟩ := not_or.mp hnot
        have heven := (h.isVar _ (mem_signals.mpr (.inr (h.gate_mem hg')))).2.2
        rw [litVal_setGate h₀, litVal_setGate h₁]
        by_cases heq : g'.lhs = g.lhs
        · obtain rfl := h.gate_unique hg' hg heq
          rw [litVal_of_even heven]
          exact Function.update_self ..
        · rw [litVal_setGate (by rwa [strip_of_even heven])]
          exact (hrun i hi).1.gates g' hg' (Finset.mem_toList.mpr (Finset.mem_erase.mpr ⟨heq, hin'⟩))
      · rw [litVal_setGate (hread c (List.mem_cons_of_mem _ hc))]
        exact (hrun i hi).1.constraints c hc
      · dsimp only
        rw [hstate (i + 1) l hl, litVal_setGate (hnext l hl)]
        exact (hrun i hi).2 l hl hid
      · rw [litVal_setGate (hread tr.bad List.mem_cons_self)]
        exact hbad
    exact (safeOver_iff_freeBadAt h).mp hsafe k (hrun'.mono (Set.subset_univ _))
  · rw [Finset.erase_eq_of_notMem hin]
    exact hsafe

end TransitionRelation

theorem MapSolver.Blocks.addClauses {M : Type} {V : MapSolver M} {ids : List ℕ}
    {Rep : (Finset ℕ → Prop) → M → Prop} {fail : Failure → Prop} (h : V.Blocks ids Rep)
    {clauses : List Clause} (hc : ∀ cls ∈ clauses, cls ≠ [] ∧ Over ids cls) {P : Finset ℕ → Prop} {x : M}
    (hx : Rep P x) : Meets (Rep fun t ↦ P t ∧ ∀ cls ∈ clauses, satClause (seedVal t) cls) fail
      (clauses.foldlM V.addClause x) := by
  refine foldlM_meets (fun done ↦ Rep fun t ↦ P t ∧ ∀ cls ∈ done, satClause (seedVal t) cls) x ?_ ?_
  · exact h.congr hx fun t _ ↦ ⟨fun hP ↦ ⟨hP, nofun⟩, And.left⟩
  · intro done cls rest y hl hy
    obtain ⟨hne, hover⟩ := hc cls (hl ▸ List.mem_append_right done List.mem_cons_self)
    refine ((h.addClause hy hne hover).weaken fun _ ↦ False.elim).imp fun z hz ↦ h.congr hz fun t _ ↦ ?_
    rw [List.forall_mem_append, List.forall_mem_singleton, and_assoc]

namespace TransitionRelation

variable {tr : TransitionRelation}

theorem hint_over (h : tr.WellFormed) {gates : List ℕ} (hsub : gates ⊆ tr.gateIDs) :
    ∀ cls ∈ gates.map tr.hint, cls ≠ [] ∧ Over (idSet tr.gateIDs) cls := by
  intro cls hcls
  obtain ⟨gate, hgate, rfl⟩ := List.mem_map.mp hcls
  have hids := h.gates_idSet
  have hover : ∀ id ∈ tr.gateIDs, strip id ∈ idSet tr.gateIDs := by
    intro id hid
    rw [hids.strip (mem_idSet.mpr hid)]
    exact mem_idSet.mpr hid
  refine ⟨List.cons_ne_nil _ _, List.forall_mem_cons.mpr ⟨.inl ?_, fun id hid ↦ .inl ?_⟩⟩
  · rw [strip_negate]
    exact hover gate (hsub hgate)
  · obtain ⟨g, hg, -, rfl⟩ := (mem_gateToFanout ((isGate_iff h).mpr (hsub hgate))).mp hid
    exact hover g.lhs (h.gate_mem hg)

/-- A gate that is an operand, and neither the bad literal's variable nor a next state's. -/
structure COIGate (tr : TransitionRelation) (gate : ℕ) : Prop where
  mem : gate ∈ tr.gateIDs
  feeds : ∃ g ∈ tr.gates, Feeds gate g
  notBad : strip tr.bad ≠ gate
  notNext : ∀ l ∈ tr.latches, strip l.next ≠ gate

/-- A gate that is an operand once, with the basic hints, or at all, with the complex ones. -/
structure ExploreGate (tr : TransitionRelation) (basicHints complexHints : Bool) (gate : ℕ) : Prop where
  mem : gate ∈ tr.gateIDs
  feeds : ∃ g ∈ tr.gates, Feeds gate g
  hinted : tr.operands.count gate = 1 ∧ basicHints = true ∨ complexHints = true

end TransitionRelation

open TransitionRelation

theorem minimal_safeGates_singleton {tr : TransitionRelation} {gate : ℕ} (h : tr.WellFormed)
    (hsafe : SafeOver tr [gate]) (hno : ¬ SafeOver tr []) : Minimal (SafeGates tr) {gate} := by
  refine Explored.minimal_of_erase (monotone_safeGates h) ?_ fun a ha ↦ ?_
  · have hset := (safeOver_iff h).mp hsafe
    rwa [List.toFinset_cons, List.toFinset_nil, insert_empty_eq] at hset
  · rw [Finset.mem_singleton.mp ha, Finset.erase_singleton]
    exact fun hset ↦ hno ((safeOver_iff h).mpr (by rwa [List.toFinset_nil]))

theorem readsCone_relay : relay.ReadsCone [] := by
  intro lit hlit hlatch
  obtain rfl := List.mem_singleton.mp hlit
  exact absurd hlatch (by decide)

namespace UnifiedIVCFinder

variable {M F : Type} {ctx : UnifiedIVCContext M F} {tr : TransitionRelation} {gate : ℕ}

theorem mem_coiGates (h : tr.WellFormed) : gate ∈ (tr.gatesWithFanout.filter fun gate ↦
      strip gate != strip tr.bad &&
        !(tr.latches.map fun latch ↦ strip latch.next).contains (strip gate)) ↔ tr.COIGate gate := by
  rw [List.mem_filter, mem_gatesWithFanout h]
  constructor
  · rintro ⟨⟨hmem, hfeeds⟩, hno⟩
    rw [h.gates_idSet.strip (mem_idSet.mpr hmem), Bool.and_eq_true, bne_iff_ne, Bool.not_eq_true',
      ← Bool.not_eq_true, List.contains_iff_mem] at hno
    refine ⟨hmem, hfeeds, hno.1.symm, fun l hl heq ↦ hno.2 ?_⟩
    exact List.mem_map.mpr ⟨l, hl, heq⟩
  · rintro ⟨hmem, hfeeds, hbad, hnext⟩
    rw [h.gates_idSet.strip (mem_idSet.mpr hmem), Bool.and_eq_true, bne_iff_ne, Bool.not_eq_true',
      ← Bool.not_eq_true, List.contains_iff_mem]
    refine ⟨⟨hmem, hfeeds⟩, hbad.symm, fun hin ↦ ?_⟩
    obtain ⟨l, hl, heq⟩ := List.mem_map.mp hin
    exact hnext l hl heq

theorem addCOIToMap_meets (h : ctx.tr.WellFormed) {Rep : (Finset ℕ → Prop) → M → Prop}
    {fail : Failure → Prop} (hV : ctx.mapSolver.Blocks (idSet ctx.tr.gateIDs) Rep)
    {P : Finset ℕ → Prop} {f : UnifiedIVCFinder M F} (hx : Rep P f.map) :
    Meets (fun f' ↦ Rep (fun t ↦ P t ∧ ∀ cls ∈ coiHints ctx.tr, satClause (seedVal t) cls) f'.map) fail
      (f.addCOIToMap ctx) := by
  have hover := hint_over h fun gate hgate ↦ ((mem_coiGates h).mp hgate).mem
  exact (hV.addClauses hover hx).bind fun map hmap ↦ hmap

/-- The hints lose no minimal set exactly when each gate they are for is useless without its
fanouts. It is when no constraint reads such a gate, as long as all latches that constraints and the
bad literal read are in every cone. -/
theorem coiHints_keep_iff (h : tr.WellFormed) :
    ((∀ t ⊆ tr.gateIDs.toFinset, Minimal (SafeGates tr) t → ∀ cls ∈ coiHints tr,
      satClause (seedVal t) cls) ↔ ∀ gate, tr.COIGate gate → tr.Useless gate) ∧
    ((∀ c ∈ tr.constraints, ¬ tr.COIGate (strip c)) → tr.ReadsCone [] →
      ∀ gate, tr.COIGate gate → tr.Useless gate) := by
  refine ⟨(hints_iff h fun gate hgate ↦ ((mem_coiGates h).mp hgate).mem).trans ?_, ?_⟩
  · exact forall_congr' fun gate ↦ imp_congr_left (mem_coiGates h)
  · intro hconstraints hcone gate hgate
    refine useless_of_unread h hgate.mem (List.forall_mem_cons.mpr ⟨hgate.notBad, fun c hc heq ↦ ?_⟩)
      hgate.notNext hcone
    exact hconstraints c hc (heq ▸ hgate)

/-- No constraint reads a gate of the relay. -/
theorem coiHints_keep_relay : relay.WellFormed ∧
    ∀ t ⊆ relay.gateIDs.toFinset, Minimal (SafeGates relay) t →
      ∀ cls ∈ coiHints relay, satClause (seedVal t) cls := by
  have hiff := coiHints_keep_iff relay_wellFormed
  exact ⟨relay_wellFormed, hiff.1.mpr (hiff.2 nofun readsCone_relay)⟩

theorem not_safeOver_constrained : ¬ SafeOver constrained [] := by
  intro hsafe
  refine (safeOver_iff_freeBadAt constrained_wellFormed).mp hsafe 1
    ⟨fun i v ↦ decide (v = 4 ∨ v = 8 ∨ v = 6 ∧ 0 < i), fun l hl _ _ ↦ ?_, fun i _ ↦ ⟨⟨?_, ?_, ?_⟩,
      fun l hl _ ↦ ?_⟩, ?_⟩
  · obtain rfl := List.mem_singleton.mp hl
    decide
  · simp [idFalse]
  · exact fun g _ hin ↦ absurd hin List.not_mem_nil
  · intro c hc
    obtain rfl := List.mem_singleton.mp hc
    rfl
  · obtain rfl := List.mem_singleton.mp hl
    simp [litVal_of_even]
  · rfl

/-- The constraint's gate alone is a minimal safe set, and the hint asks for the gate that reads it. -/
theorem coiHints_keep_fails : ¬ ∀ tr : TransitionRelation, tr.WellFormed → tr.Safe →
    ∀ t ⊆ tr.gateIDs.toFinset, Minimal (SafeGates tr) t →
      ∀ cls ∈ coiHints tr, satClause (seedVal t) cls := by
  intro h
  have hall : SafeOver constrained constrained.gateIDs :=
    safeOver_constrained.mono constrained_wellFormed (by decide)
  have hmin := minimal_safeGates_singleton constrained_wellFormed safeOver_constrained not_safeOver_constrained
  have hsat := h constrained constrained_wellFormed (hall.safe constrained_wellFormed rfl) {8} (by decide) hmin
    [9, 10, 10] (by decide)
  exact absurd hsat (by decide)

end UnifiedIVCFinder

namespace MARCOIVCFinder

variable {ctx : MARCOIVCContext} {tr : TransitionRelation} {gate : ℕ} {basicHints complexHints : Bool}

theorem mem_exploreGates (h : tr.WellFormed) : gate ∈ (tr.gatesWithFanout.filter fun gate ↦
      if (tr.gateToFanout gate).length == 1 && basicHints then true else complexHints) ↔
      tr.ExploreGate basicHints complexHints gate := by
  rw [List.mem_filter, mem_gatesWithFanout h]
  have hcount : gate ∈ tr.gateIDs → ((if (tr.gateToFanout gate).length == 1 && basicHints then true
      else complexHints) = true ↔ tr.operands.count gate = 1 ∧ basicHints = true ∨ complexHints = true) := by
    intro hmem
    rw [length_gateToFanout ((isGate_iff h).mpr hmem)]
    by_cases hone : tr.operands.count gate = 1 ∧ basicHints = true
    · simp [hone]
    · have hno : (tr.operands.count gate == 1 && basicHints) = false := by
        rw [← Bool.not_eq_true, Bool.and_eq_true, beq_iff_eq]
        exact hone
      simp [hno, hone]
  constructor
  · rintro ⟨⟨hmem, hfeeds⟩, hyes⟩
    exact ⟨hmem, hfeeds, (hcount hmem).mp hyes⟩
  · rintro ⟨hmem, hfeeds, hyes⟩
    exact ⟨⟨hmem, hfeeds⟩, (hcount hmem).mpr hyes⟩

theorem addExploreHints_meets (h : ctx.tr.WellFormed) {Rep : (Finset ℕ → Prop) → MSU4MapSolver → Prop}
    {fail : Failure → Prop} (hV : (mapSolver ctx).Blocks (idSet ctx.tr.gateIDs) Rep)
    {P : Finset ℕ → Prop} {f : MARCOIVCFinder} (hx : Rep P f.map) :
    Meets (fun f' ↦ Rep (fun t ↦ P t ∧ ∀ cls ∈ exploreHints ctx.tr basicHints complexHints,
      satClause (seedVal t) cls) f'.map) fail (addExploreHints ctx basicHints complexHints f) := by
  have hover : ∀ cls ∈ exploreHints ctx.tr basicHints complexHints, cls ≠ [] ∧ Over (idSet ctx.tr.gateIDs) cls :=
    hint_over h fun gate hgate ↦ ((mem_exploreGates h).mp hgate).mem
  exact (hV.addClauses hover hx).bind fun map hmap ↦ hmap

/-- The same for the gates that are given a hint here. None of them may be the bad literal's variable
or a next state's. -/
theorem exploreHints_keep_iff (h : tr.WellFormed) (basicHints complexHints : Bool) :
    ((∀ t ⊆ tr.gateIDs.toFinset, Minimal (SafeGates tr) t →
      ∀ cls ∈ exploreHints tr basicHints complexHints, satClause (seedVal t) cls) ↔
      ∀ gate, tr.ExploreGate basicHints complexHints gate → tr.Useless gate) ∧
    ((∀ lit ∈ tr.bad :: tr.constraints ++ tr.latches.map Latch.next,
        ¬ tr.ExploreGate basicHints complexHints (strip lit)) → tr.ReadsCone [] →
      ∀ gate, tr.ExploreGate basicHints complexHints gate → tr.Useless gate) := by
  refine ⟨(hints_iff h fun gate hgate ↦ ((mem_exploreGates h).mp hgate).mem).trans ?_, ?_⟩
  · exact forall_congr' fun gate ↦ imp_congr_left (mem_exploreGates h)
  · intro hread hcone gate hgate
    refine useless_of_unread h hgate.mem (fun lit hlit heq ↦ ?_) (fun l hl heq ↦ ?_) hcone
    · exact hread lit (List.mem_append_left _ hlit) (heq ▸ hgate)
    · exact hread l.next (List.mem_append_right _ (List.mem_map_of_mem hl)) (heq ▸ hgate)

/-- In the relay only the gate before the bad literal's has a hint. -/
theorem exploreHints_keep_relay : relay.WellFormed ∧
    ∀ t ⊆ relay.gateIDs.toFinset, Minimal (SafeGates relay) t →
      ∀ cls ∈ exploreHints relay true true, satClause (seedVal t) cls := by
  have hiff := exploreHints_keep_iff relay_wellFormed true true
  refine ⟨relay_wellFormed, hiff.1.mpr (hiff.2 (fun lit hlit hgate ↦ ?_) readsCone_relay)⟩
  have hcase : lit = 8 ∨ lit = 4 := List.mem_pair.mp hlit
  obtain ⟨hmem, ⟨g, hg, hfeeds⟩, -⟩ := hgate
  rcases hcase with rfl | rfl
  · rcases List.mem_pair.mp hg with rfl | rfl
    · exact absurd hfeeds (by decide)
    · exact absurd hfeeds (by decide)
  · exact absurd hmem (by decide)

def tapped : TransitionRelation where
  bad := 6
  latches := [⟨4, 4, idFalse⟩]
  gates := [⟨6, 4, 4⟩, ⟨8, 6, 4⟩]
  latchIDs := [4]
  inputIDs := []
  gateIDs := [6, 8]
  constraints := []
  gateCNF := AndGate.toCNF

theorem tapped_wellFormed : tapped.WellFormed where
  bad := by decide
  gates := by decide
  latches := by decide
  reset := by decide
  constraints := by decide
  ands := by decide
  latchIDs_eq := rfl
  gateIDs_eq := rfl
  isVar := by decide
  nodup := by decide
  next := by decide
  constraints_defined := by decide
  bad_defined := by decide
  rhs_defined := by decide
  gates_computed := by
    refine ⟨id, fun g hg ↦ ⟨_, TransitionRelation.computes_toCNF rfl ?_ ?_ ?_⟩⟩
    · revert g
      decide
    all_goals
      cases hg with
      | head => exact .inr (.inl List.mem_cons_self)
      | tail _ hg =>
        obtain rfl := List.mem_singleton.mp hg
        first
          | exact .inr (.inl List.mem_cons_self)
          | exact .inr (.inr ⟨List.mem_cons_self, by decide⟩)

theorem safeOver_tapped : SafeOver tapped [6] := by
  refine (safeOver_iff_freeBadAt tapped_wellFormed).mpr fun k hk ↦ ?_
  obtain ⟨x, hinit, hrun, hbad⟩ := hk
  have hcone : TransitionRelation.Cone tapped [6] 4 :=
    .rhs0 (g := ⟨6, 4, 4⟩) List.mem_cons_self List.mem_cons_self
  have hlow : x k 4 = false := low_of_cone rfl List.mem_cons_self hcone hinit hrun k le_rfl
  have hgate : litVal (x k) 6 = (litVal (x k) 4 && litVal (x k) 4) :=
    (hrun k (by omega)).1.gates ⟨6, 4, 4⟩ (by decide) (by decide)
  have hval : litVal (x k) 6 = true := hbad
  rw [hgate, litVal_of_even rfl, hlow] at hval
  exact absurd hval Bool.false_ne_true

theorem not_safeOver_tapped : ¬ SafeOver tapped [] :=
  not_safeOver_of_frame tapped_wellFormed (x := fun v ↦ decide (v = 6)) ⟨by decide, by decide, by decide⟩
    (by decide) (by decide) rfl

/-- The bad gate alone is a minimal safe set, and the hint asks for the gate that reads it. -/
theorem exploreHints_keep_fails : ¬ ∀ (tr : TransitionRelation) (basicHints complexHints : Bool),
    tr.WellFormed → tr.Safe → ∀ t ⊆ tr.gateIDs.toFinset, Minimal (SafeGates tr) t →
      ∀ cls ∈ exploreHints tr basicHints complexHints, satClause (seedVal t) cls := by
  intro h
  have hall : SafeOver tapped tapped.gateIDs := safeOver_tapped.mono tapped_wellFormed (by decide)
  have hmin := minimal_safeGates_singleton tapped_wellFormed safeOver_tapped not_safeOver_tapped
  have hsat := h tapped true false tapped_wellFormed (hall.safe tapped_wellFormed rfl) {6} (by decide) hmin
    [7, 8] (by decide)
  exact absurd hsat (by decide)

end MARCOIVCFinder

end PME
