import PME.BMCTrace
import PME.Debugger
import PME.CardinalityConstraint
import PME.ClauseDatabase
import PME.IVC

namespace PME

open Outcome

namespace TransitionRelation

variable {tr : TransitionRelation} {x y x' y' : Assignment}

theorem litVal_of_signals (hc : y idFalse = x idFalse) (hxy : ∀ v ∈ tr.signals, y v = x v) {lit : ℕ}
    (hd : tr.Defines lit) : litVal y lit = litVal x lit := by
  refine litVal_congr ?_
  rcases hd with hz | hs
  · rw [hz]
    exact hc
  · exact hxy _ hs

theorem WellFormed.isFrame_of_signals (h : tr.WellFormed) (hc : y idFalse = x idFalse)
    (hxy : ∀ v ∈ tr.signals, y v = x v) (hx : tr.IsFrame x) : tr.IsFrame y where
  const := hc.trans hx.const
  gates := by
    obtain ⟨rank, hrank⟩ := h.gates_computed
    rw [toCNF, satClauses_flatMap]
    intro g hg
    obtain ⟨f, hf⟩ := hrank g hg
    have hsat : satClauses x (tr.gateCNF g) := fun cls hcls ↦
      hx.gates cls (List.mem_flatMap.mpr ⟨g, hg, hcls⟩)
    have hself : x g.lhs = y g.lhs := (hxy _ (mem_signals.mpr (.inr (h.gate_mem hg)))).symm
    refine (satClauses_gate_congr hf hx.const hself fun v hv ↦ ?_).mp hsat
    rcases hv with rfl | hv | hv
    · exact hc.symm
    · exact (hxy v (mem_signals.mpr (.inl hv))).symm
    · exact (hxy v (mem_signals.mpr (.inr hv.1))).symm
  constraints c hmem := by
    rw [litVal_of_signals hc hxy (h.constraints_defined c hmem)]
    exact hx.constraints c hmem

theorem WellFormed.step_of_signals (h : tr.WellFormed) (hc : x' idFalse = x idFalse)
    (hx : ∀ v ∈ tr.signals, x' v = x v) (hy : ∀ v ∈ tr.signals, y' v = y v) (hs : tr.Step x y) :
    tr.Step x' y' := by
  intro l hl
  have hmem : l.id ∈ tr.signals := mem_signals.mpr (.inl (List.mem_append_right _ (h.latch_mem hl)))
  rw [hy _ hmem, litVal_of_signals hc hx (h.next l hl)]
  exact hs l hl

theorem WellFormed.isInit_of_signals (h : tr.WellFormed) (hc : y idFalse = x idFalse)
    (hxy : ∀ v ∈ tr.signals, y v = x v) (hx : tr.IsInit x) : tr.IsInit y := by
  intro l hl hr
  have hmem : l.id ∈ tr.signals := mem_signals.mpr (.inl (List.mem_append_right _ (h.latch_mem hl)))
  have hreset : tr.Defines l.reset := by
    rcases h.reset l hl with hz | hz | hz
    · exact absurd hz hr
    · left
      rw [hz]
      rfl
    · left
      rw [hz]
      rfl
  rw [hxy _ hmem, litVal_of_signals hc hxy hreset]
  exact hx l hl hr

end TransitionRelation

open TransitionRelation DebugTransitionRelation

namespace DebugTransitionRelation

structure Debugs (tr : TransitionRelation) (n : ℕ) (d : DebugTransitionRelation) : Prop
    extends IsDebug tr n d, Indexed n tr.gateIDs d where
  wf : tr.WellFormed
  plain : tr.gateCNF = AndGate.toCNF
  even : n % 2 = 0
  minId_le : minId ≤ n
  old : ∀ v ∈ tr.signals, v < n
  le_maxId : n + 4 * tr.gateIDs.length ≤ maxId + 1

theorem fromRelation_debugs {tr : TransitionRelation} {vm : VariableManager} (hwf : tr.WellFormed)
    (hplain : tr.gateCNF = AndGate.toCNF) (hvm : vm.Inv) (hold : ∀ v ∈ tr.signals, v < vm.nextID) :
    Meets (fun r ↦ Debugs tr vm.nextID r.1 ∧ r.2.Inv ∧
        r.2.nextID = vm.nextID + 4 * tr.gateIDs.length)
      (fun e ↦ e = .idsExhausted ∧ maxId + 1 < vm.nextID + 4 * tr.gateIDs.length)
      (fromRelation vm tr) := by
  refine (fromRelation_meets hwf hvm hold).self.imp fun r hr ↦ ?_
  obtain ⟨hok, hdebug, hinv, hnext⟩ := hr
  have hmax := hinv.le_maxId
  refine ⟨⟨hdebug, fromRelation_indexed hwf hvm hold hok, hwf, hplain, hvm.even, hvm.minId_le, hold,
    by omega⟩, hinv, hnext⟩

def selected (d : DebugTransitionRelation) (σ : Assignment) : List ℕ :=
  d.gateIDs.filter fun g ↦ σ (d.debugLatchForGate g)

theorem mem_selected {d : DebugTransitionRelation} {σ : Assignment} {g : ℕ} :
    g ∈ d.selected σ ↔ g ∈ d.gateIDs ∧ σ (d.debugLatchForGate g) = true := List.mem_filter

theorem strip_of_mem_debugCNF {d : DebugTransitionRelation} {g : AndGate} {cls : Clause} {lit : ℕ}
    (hcls : cls ∈ d.debugCNF g) (hl : lit ∈ cls) :
    ∃ a ∈ [g.lhs, g.rhs0, g.rhs1, d.debugLatchForGate g.lhs, d.debugPPIForGate g.lhs],
      strip lit = strip a := by
  simp only [debugCNF, AndGate.toCNF, List.map_cons, List.map_nil, List.cons_append, List.nil_append,
    List.mem_cons, List.not_mem_nil, or_false] at hcls ⊢
  rcases hcls with rfl | rfl | rfl | rfl | rfl <;>
    simp only [List.mem_cons, List.not_mem_nil, or_false] at hl <;>
    rcases hl with rfl | rfl | rfl | rfl <;> simp [strip_negate]

namespace Debugs

variable {tr : TransitionRelation} {n : ℕ} {d : DebugTransitionRelation} {σ τ : Assignment} {k : ℕ}
  {g : ℕ}

theorem wellFormed (h : Debugs tr n d) : d.WellFormed :=
  h.toIsDebug.wellFormed h.wf h.even h.minId_le h.old h.le_maxId h.plain

theorem signals_lt (h : Debugs tr n d) {v : ℕ} (hv : v ∈ d.signals) :
    v < n + 4 * tr.gateIDs.length := by
  rcases (h.toIsDebug.mem_signals_iff v).mp hv with hv | ⟨j, hj, rfl | rfl⟩
  · have hlt := h.old v hv
    omega
  · rw [latchAt]
    omega
  · rw [ppiAt]
    omega

theorem latch_signal (h : Debugs tr n d) (hg : g ∈ tr.gateIDs) : d.debugLatchForGate g ∈ d.signals := by
  obtain ⟨j, hj, -, hl, -⟩ := h.debugLatch_mem hg
  rw [hl]
  exact (h.toIsDebug.mem_signals_iff _).mpr (.inr ⟨j, hj, .inl rfl⟩)

theorem latch_mem_latchIDs (h : Debugs tr n d) (hg : g ∈ tr.gateIDs) :
    d.debugLatchForGate g ∈ d.latchIDs := by
  obtain ⟨j, hj, -, hl, -⟩ := h.debugLatch_mem hg
  rw [hl, h.base]
  exact List.mem_append_right _ (List.mem_map_of_mem (List.mem_range.mpr hj))

theorem latch_lt (h : Debugs tr n d) (hg : g ∈ tr.gateIDs) :
    d.debugLatchForGate g < n + 4 * tr.gateIDs.length := h.signals_lt (h.latch_signal hg)

theorem latch_isVar (h : Debugs tr n d) (hg : g ∈ tr.gateIDs) : minId ≤ d.debugLatchForGate g ∧
    d.debugLatchForGate g ≤ maxId ∧ d.debugLatchForGate g % 2 = 0 :=
  h.wellFormed.isVar _ (h.latch_signal hg)

theorem mentions (h : Debugs tr n d) {v : ℕ}
    (hv : d.Mentions v) : v = idFalse ∨ v ∈ d.signals := by
  have hwf := h.wellFormed
  rcases hv with ⟨cls, hcls, lit, hl, rfl⟩ | ⟨l, hl, rfl | rfl⟩ | ⟨c, hc, rfl⟩
  · rw [TransitionRelation.toCNF, h.gateCNF, h.gates] at hcls
    obtain ⟨g, hg, hcls⟩ := List.mem_flatMap.mp hcls
    have hgate := h.wf.gate_mem hg
    have hdefines : ∀ lit, tr.Defines lit → strip lit = idFalse ∨ strip lit ∈ d.signals := fun lit hlit ↦
      hlit.imp_right fun hmem ↦ (h.toIsDebug.mem_signals_iff _).mpr (.inl hmem)
    have hsignal : ∀ v ∈ d.signals, strip v ∈ d.signals := fun v hv ↦ by
      rwa [strip_of_even (hwf.isVar v hv).2.2]
    obtain ⟨a, ha, heq⟩ := strip_of_mem_debugCNF hcls hl
    rw [heq]
    simp only [List.mem_cons, List.not_mem_nil, or_false] at ha
    rcases ha with rfl | rfl | rfl | rfl | rfl
    · exact .inr (hsignal _ (mem_signals.mpr (.inr (h.gateIDs ▸ hgate))))
    · exact hdefines _ (h.wf.rhs_defined g hg).1
    · exact hdefines _ (h.wf.rhs_defined g hg).2
    · exact .inr (hsignal _ (h.latch_signal hgate))
    · obtain ⟨j, hj, -, -, hppi⟩ := h.debugLatch_mem hgate
      rw [hppi]
      exact .inr (hsignal _ ((h.toIsDebug.mem_signals_iff _).mpr (.inr ⟨j, hj, .inr rfl⟩)))
  · exact .inr (mem_signals.mpr (.inl (List.mem_append_right _ (hwf.latch_mem hl))))
  · exact hwf.next l hl
  · rw [h.constraints] at hc
    rw [List.mem_singleton.mp hc]
    exact hwf.bad_defined

theorem mentions_lt (h : Debugs tr n d) {v : ℕ} (hv : d.Mentions v) : v < n + 4 * tr.gateIDs.length := by
  rcases h.mentions hv with rfl | hsignal
  · exact (Nat.lt_of_lt_of_le (by decide) h.minId_le).trans_le (Nat.le_add_right _ _)
  · exact h.signals_lt hsignal

theorem freedBadAt (h : Debugs tr n d) (hc : σ idFalse = false) (hinit : d.IsInit (frameOf σ 0))
    (hrun : d.IsRun (k + 1) (frameOf σ)) (hbad : litVal (frameOf σ k) d.bad = true) :
    tr.FreedBadAt (d.selected σ).toFinset k := by
  have hy : d.DebugRun ((d.selected σ).toFinset : Set ℕ) (k + 1) (frameOf σ) := by
    refine ⟨fun i _ ↦ (frameOf_idFalse i).trans hc, hinit, hrun, fun g hg ↦ ?_⟩
    rw [frameOf_zero (h.latch_isVar (h.gateIDs ▸ hg)).2.1, Finset.mem_coe, List.mem_toFinset,
      mem_selected]
    exact ⟨fun hv ↦ ⟨hg, hv⟩, And.right⟩
  have hp : tr.Projects (k + 1) (frameOf σ) (frameOf σ) :=
    ⟨fun _ _ ↦ rfl, fun _ _ _ _ ↦ rfl, fun _ _ _ _ ↦ rfl⟩
  refine ⟨frameOf σ, h.toIsDebug.suspectRun h.wf h.even hy hp, ?_⟩
  rw [← h.bad]
  exact hbad

/-- A set of gates that makes the bad literal reachable is selected by an execution, whatever
values variables made later have. -/
theorem exists_execution (h : Debugs tr n d) {D : Finset ℕ} (hD : D ⊆ tr.gateIDs.toFinset)
    (hbad : tr.FreedBadAt D k) {lo hi : ℕ} (hlo : n + 4 * tr.gateIDs.length ≤ lo) (hhi : hi ≤ maxId + 1) :
    ∃ σ : Assignment, ∀ τ : Assignment, (∀ v, ¬ (lo ≤ v ∧ v < hi) → τ v = σ v) →
      τ idFalse = false ∧ d.IsInit (frameOf τ 0) ∧ d.IsRun (k + 1) (frameOf τ) ∧
        litVal (frameOf τ k) d.bad = true ∧ (d.selected τ).toFinset = D := by
  obtain ⟨x, hx, hxbad⟩ := hbad
  obtain ⟨hy, hp⟩ := h.toIsDebug.debugRun_lift h.wf h.even h.minId_le h.old hx
  generalize IsDebug.lift tr n (D : Set ℕ) x = y at hy hp
  refine ⟨joinFrames y, fun τ hτ ↦ ?_⟩
  have hmin := h.minId_le
  rw [minId_eq] at hmin
  have hc : τ idFalse = false := by
    rw [hτ idFalse (by rw [idFalse]; omega)]
    exact joinFrames_idFalse y
  have hframe : ∀ i, ∀ v ∈ d.signals, frameOf τ i v = y i v := by
    intro i v hv
    obtain ⟨hvmin, hvmax, -⟩ := h.wellFormed.isVar v hv
    have hlt := h.signals_lt hv
    rw [← frameOf_joinFrames y i hvmin hvmax, frameOf, frameOf]
    apply hτ
    rw [prime_of_ge hvmin hvmax]
    rw [maxId_eq] at hhi hvmax
    rcases Nat.eq_zero_or_pos i with rfl | hi
    · omega
    · have hmul : 1 * 2 ^ 48 ≤ i * 2 ^ 48 := Nat.mul_le_mul_right _ hi
      omega
  have hconst : ∀ i ≤ k + 1, frameOf τ i idFalse = y i idFalse := fun i hi ↦
    ((frameOf_idFalse i).trans hc).trans (hy.const i hi).symm
  refine ⟨hc, ?_, fun i hi ↦ ⟨?_, ?_⟩, ?_, ?_⟩
  · exact h.wellFormed.isInit_of_signals (hconst 0 (by omega)) (hframe 0) hy.init
  · exact h.wellFormed.isFrame_of_signals (hconst i (by omega)) (hframe i) (hy.run i hi).1
  · exact h.wellFormed.step_of_signals (hconst i (by omega)) (hframe i) (hframe (i + 1)) (hy.run i hi).2
  · rw [litVal_of_signals (hconst k (by omega)) (hframe k) h.wellFormed.bad_defined, h.bad,
      hp.litVal_eq (Nat.lt_succ_self k) h.wf.bad_defined]
    exact hxbad
  · have hlatch : ∀ g ∈ tr.gateIDs, τ (d.debugLatchForGate g) = y 0 (d.debugLatchForGate g) := by
      intro g hg
      have hzero : frameOf τ 0 (d.debugLatchForGate g) = τ (d.debugLatchForGate g) :=
        frameOf_zero (h.latch_isVar hg).2.1
      rw [← hzero, hframe 0 _ (h.latch_signal hg)]
    ext g
    rw [List.mem_toFinset, mem_selected]
    constructor
    · intro hg
      obtain ⟨hmem, hv⟩ := hg
      rw [hlatch g (h.gateIDs ▸ hmem)] at hv
      exact (hy.selects g hmem).mp hv
    · intro hg
      have hg' : g ∈ tr.gateIDs := List.mem_toFinset.mp (hD hg)
      have hmem : g ∈ d.gateIDs := h.gateIDs ▸ hg'
      rw [hlatch g hg']
      exact ⟨hmem, (hy.selects g hmem).mpr hg⟩

theorem debugLatchIDs_eq (h : Debugs tr n d) : d.debugLatchIDs = tr.gateIDs.map d.debugLatchForGate := by
  rw [h.toIndexed.latches]
  refine List.ext_getElem (by simp) fun j hj hj' ↦ ?_
  rw [List.length_map, List.length_range] at hj
  rw [List.getElem_map, List.getElem_map, List.getElem_range, h.toIsDebug.latch j hj]

theorem debugLatchIDs_nodup (h : Debugs tr n d) : d.debugLatchIDs.Nodup := by
  rw [h.toIndexed.latches]
  refine List.nodup_range.map fun a b hab ↦ ?_
  simp only [latchAt] at hab
  omega

theorem length_latches (h : Debugs tr n d) : (idSet d.debugLatchIDs).length = tr.gateIDs.length := by
  rw [(idSet_perm h.debugLatchIDs_nodup).length_eq, h.debugLatchIDs_eq, List.length_map]

theorem selected_nodup (h : Debugs tr n d) : (d.selected σ).Nodup :=
  h.wellFormed.gateIDs_nodup.filter _

theorem trueCount_latches (h : Debugs tr n d) (σ : Assignment) :
    trueCount σ (idSet d.debugLatchIDs) = (d.selected σ).toFinset.card := by
  have heven : ∀ g ∈ tr.gateIDs, litVal σ (d.debugLatchForGate g) = true ↔
      σ (d.debugLatchForGate g) = true := fun g hg ↦ by
    rw [litVal_of_even (h.latch_isVar hg).2.2]
  rw [List.toFinset_card_of_nodup h.selected_nodup, trueCount,
    (idSet_perm h.debugLatchIDs_nodup).countP_eq, h.debugLatchIDs_eq, List.countP_map, selected,
    h.gateIDs, ← List.countP_eq_length_filter]
  exact List.countP_congr heven

end Debugs

end DebugTransitionRelation

end PME
