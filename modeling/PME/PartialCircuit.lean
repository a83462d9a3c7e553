import PME.SignalRoles
import PME.IVC
import PME.BasicMCSFinder
import PME.IC3.FrameMeaning

namespace PME.TransitionRelation

open Outcome Exploration

variable {tr p : TransitionRelation} {S : List ℕ} {relevant : Finset ℕ} {v : ℕ}

section Gates

open Classical in
noncomputable def splice (p : TransitionRelation) (rank : ℕ → ℕ) (r : ℕ) (σ : Assignment) : Assignment :=
  fun v ↦ if p.Below rank r v then σ v else false

theorem WellFormed.not_below (h : tr.WellFormed) {rank : ℕ → ℕ} {g : AndGate} (hg : g ∈ tr.gates) :
    ¬ tr.Below rank (rank g.lhs) g.lhs := by
  have hgate := h.gate_mem hg
  have hvar := h.isVar g.lhs (mem_signals.mpr (.inr hgate))
  rintro (hconst | hin | ⟨-, hlt⟩)
  · exact absurd (hconst ▸ hvar.1) (by decide)
  · exact h.not_gate hin hgate
  · exact lt_irrefl _ hlt

theorem Computes.of_operands (hwf : tr.WellFormed) (hplain : tr.gateCNF = AndGate.toCNF)
    (hpcnf : p.gateCNF = AndGate.toCNF) {rank : ℕ → ℕ} {g : AndGate} {f : Assignment → Bool} (hg : g ∈ tr.gates)
    (hf : tr.Computes rank g f)
    (hrhs : ∀ v, v = strip g.rhs0 ∨ v = strip g.rhs1 → tr.Below rank (rank g.lhs) v → p.Below rank (rank g.lhs) v) :
    p.Computes rank g fun σ ↦ f (splice p rank (rank g.lhs) σ) := by
  classical
  have hself : ¬ tr.Below rank (rank g.lhs) g.lhs := hwf.not_below hg
  have hvar := hwf.isVar g.lhs (mem_signals.mpr (.inr (hwf.gate_mem hg)))
  have hlhs : g.lhs ≠ idFalse := fun heq ↦ absurd (heq ▸ hvar.1) (by decide)
  have hcnf : ∀ σ, σ idFalse = false →
      (litVal σ g.lhs = (litVal σ g.rhs0 && litVal σ g.rhs1) ↔ σ g.lhs = f σ) := by
    intro σ hσ
    rw [← hf.cnf σ hσ, hplain, satClauses_toCNF]
  have hsplice : ∀ σ, σ idFalse = false → f (splice p rank (rank g.lhs) σ) = f σ := by
    intro σ hσ
    obtain ⟨σ', hσ'⟩ : ∃ σ', σ' = Function.update σ g.lhs (f σ) := ⟨_, rfl⟩
    have hsame : ∀ v, v ≠ g.lhs → σ' v = σ v := fun v hv ↦ by rw [hσ', Function.update_of_ne hv]
    have hvalue : f σ' = f σ := hf.reads _ _ fun v hv ↦ hsame v fun heq ↦ hself (heq ▸ hv)
    have hown : σ' g.lhs = f σ := by rw [hσ', Function.update_self]
    obtain ⟨ρ, hρ⟩ : ∃ ρ : Assignment, ρ = fun v ↦ if v = g.lhs ∨ v = strip g.rhs0 ∨ v = strip g.rhs1 then σ' v
      else splice p rank (rank g.lhs) σ v := ⟨_, rfl⟩
    have hkept : ∀ v, v = g.lhs ∨ v = strip g.rhs0 ∨ v = strip g.rhs1 → ρ v = σ' v := fun v hv ↦ by
      rw [hρ]
      exact if_pos hv
    have hbelow : ∀ v, p.Below rank (rank g.lhs) v → splice p rank (rank g.lhs) σ v = σ v := fun v hv ↦ if_pos hv
    have hconst : ρ idFalse = false := by
      rw [hρ]
      dsimp only
      split
      · exact (hsame _ hlhs.symm).trans hσ
      · exact (hbelow _ (.inl rfl)).trans hσ
    have hgate : litVal ρ g.lhs = (litVal ρ g.rhs0 && litVal ρ g.rhs1) := by
      have hσsat := (hcnf σ' ((hsame _ hlhs.symm).trans hσ)).mpr (hown.trans hvalue.symm)
      have hstrip : strip g.lhs = g.lhs := strip_of_even hvar.2.2
      rw [litVal_congr (hkept _ (.inl hstrip)), litVal_congr (hkept _ (.inr (.inl rfl))),
        litVal_congr (hkept _ (.inr (.inr rfl)))]
      exact hσsat
    have hfρ : f ρ = f σ := by rw [← (hcnf ρ hconst).mp hgate, hkept _ (.inl rfl), hown]
    rw [← hfρ]
    refine hf.reads _ _ fun v hv ↦ ?_
    rw [hρ]
    dsimp only
    split
    · next hin =>
      have hne : v ≠ g.lhs := fun heq ↦ hself (heq ▸ hv)
      rw [hbelow v (hrhs v (hin.resolve_left hne) hv), hsame v hne]
    · rfl
  refine ⟨fun σ hσ ↦ ?_, fun σ τ hστ ↦ congrArg f (funext fun v ↦ ?_)⟩
  · rw [hpcnf, satClauses_toCNF, hcnf σ hσ, hsplice σ hσ]
  · unfold splice
    split
    · next hv => exact hστ v hv
    · rfl

end Gates

section WellFormed

theorem IsPartial.gate_mem (hp : IsPartial tr S p) {g : AndGate} : g ∈ p.gates ↔ g ∈ tr.gates ∧ g.lhs ∈ S := by
  rw [hp.gates, List.mem_filter, List.contains_iff_mem]

theorem Roles.signal (hr : Roles tr p) (h : Reads p v) : v = idFalse ∨ v ∈ p.signals := by
  refine (hr.reads v h).imp_right fun hone ↦ ?_
  rcases hone with ⟨hin, -, -⟩ | ⟨-, hl, -⟩ | ⟨-, -, hg⟩
  · exact mem_signals.mpr (.inl (List.mem_append_left _ hin))
  · exact mem_signals.mpr (.inl (List.mem_append_right _ hl))
  · exact mem_signals.mpr (.inr hg)

theorem Cone.defines (hwf : tr.WellFormed) (h : Cone tr S v) : strip v = idFalse ∨ strip v ∈ tr.signals := by
  cases h with
  | bad => exact hwf.bad_defined
  | rhs0 hg _ =>
    rw [strip_strip]
    exact (hwf.rhs_defined _ hg).1
  | rhs1 hg _ =>
    rw [strip_strip]
    exact (hwf.rhs_defined _ hg).2
  | next hl _ =>
    rw [strip_strip]
    exact hwf.next _ hl

theorem Assigned.signals_subset (h : Assigned tr S p relevant) (hp : IsPartial tr S p) (hwf : tr.WellFormed)
    (hproper : Proper tr S) : p.signals ⊆ tr.signals := by
  intro v hv
  cases mem_signals.mp hv with
  | inl hil =>
    cases List.mem_append.mp hil with
    | inl hin =>
      obtain ⟨a, ⟨ha, -, -⟩, rfl⟩ := (h.mem_inputIDs hp).mp hin
      exact (ha.defines hwf).resolve_left (hproper.constant a ha)
    | inr hl => exact mem_signals.mpr (.inl (List.mem_append_right _ ((hp.mem_latchIDs hwf).mp hl).1))
  | inr hg => exact mem_signals.mpr (.inr ((hp.mem_gateIDs hwf).mp hg).1)

theorem below_of_reads (hr : Roles tr p) (hp : IsPartial tr S p) (hwf : tr.WellFormed) {rank : ℕ → ℕ} {r : ℕ}
    (hread : Reads p v) (hbelow : tr.Below rank r v) : p.Below rank r v := by
  rcases hr.signal hread with hconst | hsignal
  · exact .inl hconst
  · cases mem_signals.mp hsignal with
    | inl hil => exact .inr (.inl hil)
    | inr hg =>
      obtain ⟨hgate, -⟩ := (hp.mem_gateIDs hwf).mp hg
      rcases hbelow with hconst | hil | ⟨-, hlt⟩
      · exact .inl hconst
      · exact absurd hgate (hwf.not_gate hil)
      · exact .inr (.inr ⟨hg, hlt⟩)

theorem IsPartial.wellFormed (hp : IsPartial tr S p) (h : Assigned tr S p relevant) (hwf : tr.WellFormed)
    (hplain : tr.gateCNF = AndGate.toCNF) (hfree : tr.constraints = []) (hproper : Proper tr S) :
    p.WellFormed := by
  have hr : Roles tr p := .of_proper h hp hwf hproper
  have hsub := h.signals_subset hp hwf hproper
  have hgate : ∀ g ∈ p.gates, g ∈ tr.gates := fun g hg ↦ (hp.gate_mem.mp hg).1
  have hlatch : ∀ l ∈ p.latches, l ∈ tr.latches := fun l hl ↦ ((hp.latches l).mp hl).1
  have hcnf : ∀ cls ∈ p.toCNF, cls ∈ tr.toCNF := by
    intro cls hcls
    rw [toCNF, hp.gateCNF] at hcls
    rw [toCNF, hplain]
    obtain ⟨g, hg, hin⟩ := List.mem_flatMap.mp hcls
    exact List.mem_flatMap.mpr ⟨g, hgate g hg, hin⟩
  refine
    { bad := hp.bad ▸ hwf.bad
      gates := fun cls hcls ↦ hwf.gates cls (hcnf cls hcls)
      latches := fun l hl ↦ hwf.latches l (hlatch l hl)
      reset := fun l hl ↦ hwf.reset l (hlatch l hl)
      constraints := hp.constraints ▸ hwf.constraints
      ands := fun g hg ↦ hwf.ands g (hgate g hg)
      latchIDs_eq := hp.latchIDs
      gateIDs_eq := hp.gateIDs
      isVar := fun v hv ↦ hwf.isVar v (hsub hv)
      nodup := ?_
      next := fun l hl ↦ hr.signal (.next hl)
      constraints_defined := ?_
      bad_defined := hr.signal .bad
      rhs_defined := fun g hg ↦ ⟨hr.signal (.rhs0 hg), hr.signal (.rhs1 hg)⟩
      gates_computed := ?_ }
  · refine List.nodup_append.mpr ⟨hr.inputs_nodup.append hr.latches_nodup hr.inputs_latches, hr.gates_nodup, ?_⟩
    intro a ha b hb heq
    cases List.mem_append.mp ha with
    | inl hin => exact hr.inputs_gates hin (heq ▸ hb)
    | inr hl => exact hr.latches_gates hl (heq ▸ hb)
  · rw [hp.constraints, hfree]
    exact fun c hc ↦ absurd hc List.not_mem_nil
  · obtain ⟨rank, hrank⟩ := hwf.gates_computed
    refine ⟨rank, fun g hg ↦ ?_⟩
    obtain ⟨f, hf⟩ := hrank g (hgate g hg)
    refine ⟨_, hf.of_operands hwf hplain hp.gateCNF (hgate g hg) fun v hv hbelow ↦ ?_⟩
    rcases hv with rfl | rfl
    · exact below_of_reads hr hp hwf (.rhs0 hg) hbelow
    · exact below_of_reads hr hp hwf (.rhs1 hg) hbelow

theorem IsPartial.owned (hp : IsPartial tr S p) (h : Assigned tr S p relevant) (hwf : tr.WellFormed)
    (hfree : tr.constraints = []) (hproper : Proper tr S) {first : ℕ} (hmin : minId ≤ first)
    (hold : ∀ v ∈ tr.signals, v < first) : IC3.FrameSolver.Owned p first := by
  have hr : Roles tr p := .of_proper h hp hwf hproper
  have hsub := h.signals_subset hp hwf hproper
  have hsignal : ∀ v, v = idFalse ∨ v ∈ p.signals → v < first := by
    rintro v (rfl | hv)
    · rw [minId_eq] at hmin
      rw [idFalse]
      omega
    · exact hold v (hsub hv)
  refine ⟨hmin, fun v hv ↦ ?_, fun v hv ↦ hsignal v (.inr (mem_signals.mpr (.inl (List.mem_append_left _ hv))))⟩
  have hlatch : ∀ l ∈ p.latches, l.id ∈ p.signals := by
    intro l hl
    refine mem_signals.mpr (.inl (List.mem_append_right _ ?_))
    rw [hp.latchIDs]
    exact List.mem_map_of_mem hl
  rcases hv with ⟨cls, hcls, lit, hl, rfl⟩ | ⟨l, hl, rfl | rfl⟩ | ⟨c, hc, rfl⟩
  · rw [toCNF, hp.gateCNF] at hcls
    obtain ⟨g, hg, hcls⟩ := List.mem_flatMap.mp hcls
    simp only [AndGate.toCNF, List.mem_cons, List.not_mem_nil, or_false] at hcls
    have hlhs : strip g.lhs ∈ p.signals := by
      have hmem : g.lhs ∈ p.gateIDs := by
        rw [hp.gateIDs]
        exact List.mem_map_of_mem hg
      have heven := hwf.isVar g.lhs (hsub (mem_signals.mpr (.inr hmem)))
      rw [strip_of_even heven.2.2]
      exact mem_signals.mpr (.inr hmem)
    have hstrip : strip lit = strip g.lhs ∨ strip lit = strip g.rhs0 ∨ strip lit = strip g.rhs1 := by
      rcases hcls with rfl | rfl | rfl <;>
        simp only [List.mem_cons, List.not_mem_nil, or_false] at hl <;>
        rcases hl with rfl | rfl | rfl <;> simp [strip_negate]
    rcases hstrip with heq | heq | heq <;> rw [heq]
    · exact hsignal _ (.inr hlhs)
    · exact hsignal _ (hr.signal (.rhs0 hg))
    · exact hsignal _ (hr.signal (.rhs1 hg))
  · exact hsignal _ (.inr (hlatch l hl))
  · exact hsignal _ (hr.signal (.next hl))
  · rw [hp.constraints, hfree] at hc
    obtain rfl := List.mem_singleton.mp hc
    exact hsignal _ (hr.signal .bad)

end WellFormed

section Freed

variable {D : Finset ℕ} {gates : List ℕ} {k : ℕ}

def BadPlain (tr : TransitionRelation) : Prop := isNegated tr.bad = true → strip tr.bad ∉ tr.latchIDs

theorem BadPlain.readsCone (h : BadPlain tr) (hfree : tr.constraints = []) (S : List ℕ) : tr.ReadsCone S := by
  intro lit hlit hmem
  rw [hfree] at hlit
  obtain rfl := List.mem_singleton.mp hlit
  cases hneg : isNegated tr.bad with
  | true => exact absurd hmem (h hneg)
  | false =>
    rw [strip_of_plain hneg]
    exact .bad

theorem freedBadAt_iff (hwf : tr.WellFormed) (hfree : tr.constraints = [])
    (hS : ∀ g ∈ tr.gateIDs, g ∈ S ↔ g ∉ D) : tr.FreedBadAt D k ↔ tr.FreeBadAt S Set.univ k := by
  have hgate : ∀ g ∈ tr.gates, g.lhs ∈ S ↔ g.lhs ∉ (D : Set ℕ) := fun g hg ↦ hS g.lhs (hwf.gate_mem hg)
  constructor
  · intro h
    obtain ⟨x, hx, hbad⟩ := h
    refine ⟨x, fun l hl _ ↦ hx.init l hl, fun i hi ↦ ⟨⟨hx.const i hi.le, fun g hg hin ↦ ?_, ?_⟩, fun l hl _ ↦
      hx.step i hi l hl⟩, hbad⟩
    · exact (hx.frame i hi).gates g hg ((hgate g hg).mp hin)
    · rw [hfree]
      exact fun c hc ↦ absurd hc List.not_mem_nil
  · intro h
    obtain ⟨x, hinit, hrun, hbad⟩ := h
    -- the constant after the last frame is not constrained
    obtain ⟨y, hy⟩ : ∃ y : ℕ → Assignment, y = fun i v ↦ if k < i ∧ v = idFalse then false else x i v := ⟨_, rfl⟩
    have hsame : ∀ i ≤ k, y i = x i := fun i hi ↦ by
      funext v
      rw [hy]
      exact if_neg fun hlt ↦ absurd hlt.1 (Nat.not_lt.mpr hi)
    have hlatch : ∀ i, ∀ l ∈ tr.latches, y i l.id = x i l.id := fun i l hl ↦ by
      have hvar := hwf.isVar l.id (mem_signals.mpr (.inl (List.mem_append_right _ (hwf.latch_mem hl))))
      rw [hy]
      exact if_neg fun heq ↦ absurd (heq.2 ▸ hvar.1) (by decide)
    refine ⟨y, ⟨fun i hi ↦ ?_, fun l hl hr ↦ ?_, fun i hi ↦ ?_, fun i hi l hl ↦ ?_⟩, ?_⟩
    · by_cases hlt : i ≤ k
      · rw [hsame i hlt]
        exact (hrun i (by omega)).1.const
      · rw [hy]
        exact if_pos ⟨Nat.not_le.mp hlt, rfl⟩
    · rw [hsame 0 (Nat.zero_le k)]
      exact hinit l hl (Set.mem_univ _) hr
    · rw [hsame i (by omega)]
      exact ⟨(hrun i hi).1.const, fun g hg hnot ↦ (hrun i hi).1.gates g hg ((hgate g hg).mpr hnot)⟩
    · rw [hlatch _ l hl, hsame i (by omega)]
      exact (hrun i hi).2 l hl (Set.mem_univ _)
    · rw [hsame k le_rfl]
      exact hbad

theorem freedBad_iff_not_safeOver (hwf : tr.WellFormed) (hfree : tr.constraints = []) (hbad : BadPlain tr)
    (hS : ∀ g ∈ tr.gateIDs, g ∈ S ↔ g ∉ D) : tr.FreedBad D ↔ ¬ SafeOver tr S := by
  rw [safeOver_iff_freeBadAt hwf]
  push Not
  refine exists_congr fun k ↦ (freedBadAt_iff hwf hfree hS).trans ⟨fun h ↦ h.mono (Set.subset_univ _), fun h ↦ ?_⟩
  exact h.of_readsCone hwf (hbad.readsCone hfree S)

/-- The gates left out are a correction set exactly where the rest is not safe. -/
theorem freedBad_iff (hwf : tr.WellFormed) (hfree : tr.constraints = []) (hbad : BadPlain tr) (D : Finset ℕ) :
    tr.FreedBad D ↔ ¬ SafeGates tr (tr.gateIDs.toFinset \ D) := by
  refine freedBad_iff_not_safeOver hwf hfree hbad fun g hg ↦ ?_
  rw [Finset.mem_toList, Finset.mem_sdiff, List.mem_toFinset]
  exact and_iff_right hg

theorem IsPartial.freedBad_iff (hp : IsPartial tr S p) (hwf : tr.WellFormed) (hpwf : p.WellFormed)
    (hfree : tr.constraints = []) (hbad : BadPlain tr) (D : Finset ℕ) :
    p.FreedBad D ↔ ¬ SafeOver tr (S.filter (· ∉ D)) := by
  have hmem : ∀ g, g ∈ S.filter (· ∉ D) ↔ g ∈ S ∧ g ∉ D := fun g ↦ by
    rw [List.mem_filter, decide_eq_true_iff]
  have hS : ∀ g ∈ p.gateIDs, g ∈ S.filter (· ∉ D) ↔ g ∉ D := by
    intro g hg
    rw [hmem]
    exact and_iff_right ((hp.mem_gateIDs hwf).mp hg).2
  have hframe : ∀ y, p.FreeFrame (S.filter (· ∉ D)) y ↔ tr.FreeFrame (S.filter (· ∉ D)) y := by
    intro y
    constructor
    · intro h
      refine ⟨h.const, fun g hg hin ↦ ?_, hp.constraints ▸ h.constraints⟩
      exact h.gates g (hp.gate_mem.mpr ⟨hg, ((hmem _).mp hin).1⟩) hin
    · intro h
      exact ⟨h.const, fun g hg hin ↦ h.gates g (hp.gate_mem.mp hg).1 hin, hp.constraints ▸ h.constraints⟩
  have hpart : ∀ k, p.FreeBadAt (S.filter (· ∉ D)) Set.univ k ↔
      tr.FreeBadAt (S.filter (· ∉ D)) {v | Cone tr S v} k := by
    intro k
    refine exists_congr fun x ↦ and_congr ?_ (and_congr (forall₂_congr fun i _ ↦ ?_) (by rw [hp.bad]))
    · simp only [hp.latches, and_imp, Set.mem_univ, true_implies, Set.mem_ofPred_eq]
    · rw [hframe]
      simp only [hp.latches, and_imp, Set.mem_univ, true_implies, Set.mem_ofPred_eq]
  rw [safeOver_iff_freeBadAt hwf]
  push Not
  refine exists_congr fun k ↦ ?_
  rw [freedBadAt_iff hpwf (hp.constraints.trans hfree) hS, hpart]
  constructor
  · intro h
    exact h.mono fun v hv ↦ Cone.mono (fun g hg ↦ ((hmem g).mp hg).1) hv
  · intro h
    exact (h.of_readsCone hwf (hbad.readsCone hfree _)).mono (Set.subset_univ _)

end Freed

section Part

variable {first : ℕ}

/-- The constructor makes a circuit that the engines can be asked about. -/
structure Part (tr : TransitionRelation) (S : List ℕ) (first : ℕ) (p : TransitionRelation) : Prop where
  made : tr.ofGates S = .ok p
  isPartial : IsPartial tr S p
  wf : p.WellFormed
  free : p.constraints = []
  owned : IC3.FrameSolver.Owned p first
  signals : p.signals ⊆ tr.signals

theorem ofGates_part (hwf : tr.WellFormed) (hplain : tr.gateCNF = AndGate.toCNF) (hfree : tr.constraints = [])
    (hproper : Proper tr S) (hmin : minId ≤ first) (hold : ∀ v ∈ tr.signals, v < first) {fail : Failure → Prop} :
    Meets (Part tr S first) fail (tr.ofGates S) := by
  have hmade : Meets _ fail (tr.ofGates S) := ofGates_assigns hwf.latches_nodup S
  refine hmade.self.imp fun p hpart ↦ ?_
  obtain ⟨hok, hp, relevant, hassigned⟩ := hpart
  exact
    { made := hok
      isPartial := hp
      wf := hp.wellFormed hassigned hwf hplain hfree hproper
      free := hp.constraints.trans hfree
      owned := hp.owned hassigned hwf hfree hproper hmin hold
      signals := hassigned.signals_subset hp hwf hproper }

theorem Part.safe_iff (h : Part tr S first p) (hwf : tr.WellFormed) : p.Safe ↔ SafeGates tr S.toFinset := by
  rw [← safeOver_iff hwf, safeOver_of_ok h.made]

end Part

theorem proper_spare (S : List ℕ) : Proper spare S := by
  have hplain : isNegated spare.bad ≠ true := by decide
  refine ⟨fun v hv ↦ ?_, fun hno ↦ absurd hno hplain, fun hno ↦ absurd hno hplain, fun hno ↦ absurd hno hplain⟩
  have hgates : ∀ g ∈ spare.gates, strip (strip g.rhs0) ≠ idFalse ∧ strip (strip g.rhs1) ≠ idFalse := by decide
  have hlatches : ∀ l ∈ spare.latches, strip (strip l.next) ≠ idFalse := by decide
  cases hv with
  | bad => decide
  | rhs0 hg _ => exact (hgates _ hg).1
  | rhs1 hg _ => exact (hgates _ hg).2
  | next hl _ => exact hlatches _ hl

end PME.TransitionRelation
