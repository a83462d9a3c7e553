import PME.PartialRelation

namespace PME.TransitionRelation

open Outcome

inductive Reads (p : TransitionRelation) : ℕ → Prop
  | bad : Reads p (strip p.bad)
  | rhs0 {g : AndGate} (hg : g ∈ p.gates) : Reads p (strip g.rhs0)
  | rhs1 {g : AndGate} (hg : g ∈ p.gates) : Reads p (strip g.rhs1)
  | next {l : Latch} (hl : l ∈ p.latches) : Reads p (strip l.next)

def OneRole (p : TransitionRelation) (v : ℕ) : Prop :=
  v ∈ p.inputIDs ∧ v ∉ p.latchIDs ∧ v ∉ p.gateIDs ∨ v ∉ p.inputIDs ∧ v ∈ p.latchIDs ∧ v ∉ p.gateIDs ∨
    v ∉ p.inputIDs ∧ v ∉ p.latchIDs ∧ v ∈ p.gateIDs

structure Roles (tr p : TransitionRelation) : Prop where
  inputs_nodup : p.inputIDs.Nodup
  latches_nodup : p.latchIDs.Nodup
  gates_nodup : p.gateIDs.Nodup
  inputs_latches : p.inputIDs.Disjoint p.latchIDs
  inputs_gates : p.inputIDs.Disjoint p.gateIDs
  latches_gates : p.latchIDs.Disjoint p.gateIDs
  plain : ∀ v ∈ p.signals, isNegated v = false ∧ v ≠ idFalse ∧ v ≠ idTrue
  reads : ∀ v, Reads p v → v = idFalse ∨ OneRole p v
  kept : ∀ v ∈ p.inputIDs, v ∉ tr.latchIDs

/-- Neither bad nor what is read in the cone is a constant, and where bad is negated the signal under
it is no latch, no gate asked for, and not read in the cone. -/
structure Proper (tr : TransitionRelation) (S : List ℕ) : Prop where
  constant : ∀ v, Cone tr S v → strip v ≠ idFalse
  latch : isNegated tr.bad = true → strip tr.bad ∉ tr.latchIDs
  gate : isNegated tr.bad = true → strip tr.bad ∈ tr.gateIDs → strip tr.bad ∉ S
  read : isNegated tr.bad = true → ¬ Cone tr S (strip tr.bad)

variable {tr p : TransitionRelation} {S : List ℕ} {relevant : Finset ℕ} {v : ℕ}

theorem Cone.eq_bad (h : Cone tr S v) (hneg : isNegated v = true) : v = tr.bad := by
  cases h with
  | bad => rfl
  | rhs0 hg hS => exact absurd hneg (by simp)
  | rhs1 hg hS => exact absurd hneg (by simp)
  | next hl hid => exact absurd hneg (by simp)

theorem strip_of_plain (h : isNegated v = false) : strip v = v :=
  strip_of_even ((isNegated_eq_false v).mp h)

theorem IsPartial.mem_latchIDs (h : IsPartial tr S p) (hwf : tr.WellFormed) :
    v ∈ p.latchIDs ↔ v ∈ tr.latchIDs ∧ Cone tr S v := by
  rw [h.latchIDs, hwf.latchIDs_eq]
  constructor
  · intro hv
    obtain ⟨l, hl, rfl⟩ := List.mem_map.mp hv
    obtain ⟨htr, hc⟩ := (h.latches l).mp hl
    exact ⟨List.mem_map_of_mem htr, hc⟩
  · intro hv
    obtain ⟨l, hl, rfl⟩ := List.mem_map.mp hv.1
    exact List.mem_map_of_mem ((h.latches l).mpr ⟨hl, hv.2⟩)

theorem IsPartial.mem_gateIDs (h : IsPartial tr S p) (hwf : tr.WellFormed) :
    v ∈ p.gateIDs ↔ v ∈ tr.gateIDs ∧ v ∈ S := by
  rw [h.gateIDs, h.gates, hwf.gateIDs_eq]
  simp only [List.mem_map, List.mem_filter, List.contains_iff_mem]
  constructor
  · intro hv
    obtain ⟨g, ⟨hg, hS⟩, rfl⟩ := hv
    exact ⟨⟨g, hg, rfl⟩, hS⟩
  · intro hv
    obtain ⟨⟨g, hg, rfl⟩, hS⟩ := hv
    exact ⟨g, ⟨hg, hS⟩, rfl⟩

theorem Assigned.mem_free (h : Assigned tr S p relevant) (hp : IsPartial tr S p) :
    v ∈ (relevant.sort.filter fun id ↦
      !(p.latches.map Latch.id).contains id && !(p.gates.map AndGate.lhs).contains id) ↔
      Cone tr S v ∧ v ∉ p.latchIDs ∧ v ∉ p.gateIDs := by
  rw [hp.latchIDs, hp.gateIDs]
  simp only [List.mem_filter, Finset.mem_sort, h.cone, Bool.and_eq_true, Bool.not_eq_true',
    List.contains_eq_mem, decide_eq_false_iff_not]

theorem Assigned.mem_inputIDs (h : Assigned tr S p relevant) (hp : IsPartial tr S p) :
    v ∈ p.inputIDs ↔ ∃ a, (Cone tr S a ∧ a ∉ p.latchIDs ∧ a ∉ p.gateIDs) ∧ strip a = v := by
  rw [h.inputIDs, List.mem_map]
  exact exists_congr fun a ↦ and_congr_left fun _ ↦ h.mem_free hp

theorem not_signal_of_negated (hwf : tr.WellFormed) (hneg : isNegated v = true) : v ∉ tr.signals := by
  intro hv
  have heven := (hwf.isVar v hv).2.2
  rw [(isNegated_iff v).mp hneg] at heven
  exact absurd heven (by decide)

theorem Assigned.negated_bad (h : Assigned tr S p relevant) (hp : IsPartial tr S p) (hwf : tr.WellFormed)
    (hneg : isNegated tr.bad = true) : tr.bad ∉ p.latchIDs ∧ tr.bad ∉ p.gateIDs ∧ strip tr.bad ∈ p.inputIDs := by
  have hno := not_signal_of_negated hwf hneg
  have hl : tr.bad ∉ p.latchIDs := fun hmem ↦ hno (mem_signals.mpr
    (.inl (List.mem_append_right _ ((hp.mem_latchIDs hwf).mp hmem).1)))
  have hg : tr.bad ∉ p.gateIDs := fun hmem ↦ hno (mem_signals.mpr (.inr ((hp.mem_gateIDs hwf).mp hmem).1))
  exact ⟨hl, hg, (h.mem_inputIDs hp).mpr ⟨tr.bad, ⟨.bad, hl, hg⟩, rfl⟩⟩

theorem Reads.cone (hp : IsPartial tr S p) (h : Reads p v) : ∃ a, Cone tr S a ∧ strip a = v := by
  cases h with
  | bad => exact ⟨tr.bad, .bad, by rw [hp.bad]⟩
  | rhs0 hg =>
    rw [hp.gates, List.mem_filter, List.contains_iff_mem] at hg
    exact ⟨_, .rhs0 hg.1 hg.2, strip_strip _⟩
  | rhs1 hg =>
    rw [hp.gates, List.mem_filter, List.contains_iff_mem] at hg
    exact ⟨_, .rhs1 hg.1 hg.2, strip_strip _⟩
  | next hl =>
    obtain ⟨htr, hc⟩ := (hp.latches _).mp hl
    exact ⟨_, .next htr hc, strip_strip _⟩

theorem Proper.of_roles (h : Assigned tr S p relevant) (hp : IsPartial tr S p) (hwf : tr.WellFormed)
    (hr : Roles tr p) : Proper tr S := by
  constructor
  · intro a ha hconst
    have hvar : ∀ b ∈ tr.signals, strip b ≠ idFalse := by
      intro b hb heq
      obtain ⟨hge, -, heven⟩ := hwf.isVar b hb
      rw [strip_of_even heven] at heq
      exact absurd (heq ▸ hge) (by decide)
    have hl : a ∉ p.latchIDs := fun hmem ↦ hvar a (mem_signals.mpr
      (.inl (List.mem_append_right _ ((hp.mem_latchIDs hwf).mp hmem).1))) hconst
    have hg : a ∉ p.gateIDs := fun hmem ↦
      hvar a (mem_signals.mpr (.inr ((hp.mem_gateIDs hwf).mp hmem).1)) hconst
    have hin : idFalse ∈ p.inputIDs := (h.mem_inputIDs hp).mpr ⟨a, ⟨ha, hl, hg⟩, hconst⟩
    exact (hr.plain idFalse (mem_signals.mpr (.inl (List.mem_append_left _ hin)))).2.1 rfl
  · intro hneg
    exact hr.kept _ (h.negated_bad hp hwf hneg).2.2
  · intro hneg hgate hS
    exact hr.inputs_gates (h.negated_bad hp hwf hneg).2.2 ((hp.mem_gateIDs hwf).mpr ⟨hgate, hS⟩)
  · intro hneg hread
    obtain ⟨hl, hg, hin⟩ := h.negated_bad hp hwf hneg
    have hne : strip tr.bad ≠ tr.bad := by
      intro heq
      have hplain := isNegated_strip tr.bad
      rw [heq, hneg] at hplain
      exact Bool.false_ne_true hplain.symm
    -- both the literal and the signal under it are relevant and become the same input
    have hl' : strip tr.bad ∉ p.latchIDs := fun hmem ↦ hr.inputs_latches hin hmem
    have hg' : strip tr.bad ∉ p.gateIDs := fun hmem ↦ hr.inputs_gates hin hmem
    have hnodup := hr.inputs_nodup
    rw [h.inputIDs] at hnodup
    exact hne (List.inj_on_of_nodup_map hnodup ((h.mem_free hp).mpr ⟨hread, hl', hg'⟩)
      ((h.mem_free hp).mpr ⟨.bad, hl, hg⟩) (strip_strip _))

theorem Roles.of_proper (h : Assigned tr S p relevant) (hp : IsPartial tr S p) (hwf : tr.WellFormed)
    (hproper : Proper tr S) : Roles tr p := by
  have hinputs : ∀ v ∈ p.inputIDs, isNegated v = false ∧ v ≠ idFalse ∧ v ≠ idTrue := by
    intro v hv
    obtain ⟨a, ⟨ha, -, -⟩, rfl⟩ := (h.mem_inputIDs hp).mp hv
    refine ⟨isNegated_strip a, hproper.constant a ha, fun heq ↦ ?_⟩
    have hplain := isNegated_strip a
    rw [heq] at hplain
    exact absurd hplain (by decide)
  have hvars : ∀ v ∈ tr.signals, isNegated v = false ∧ v ≠ idFalse ∧ v ≠ idTrue := by
    intro v hv
    obtain ⟨hge, -, heven⟩ := hwf.isVar v hv
    refine ⟨(isNegated_eq_false v).mpr heven, fun heq ↦ ?_, fun heq ↦ ?_⟩
    · exact absurd (heq ▸ hge) (by decide)
    · exact absurd (heq ▸ hge) (by decide)
  have hlatch : ∀ v ∈ p.latchIDs, v ∈ tr.signals := fun v hv ↦
    mem_signals.mpr (.inl (List.mem_append_right _ ((hp.mem_latchIDs hwf).mp hv).1))
  have hgate : ∀ v ∈ p.gateIDs, v ∈ tr.signals := fun v hv ↦
    mem_signals.mpr (.inr ((hp.mem_gateIDs hwf).mp hv).1)
  have hkept : ∀ v ∈ p.inputIDs, v ∉ tr.latchIDs := by
    intro v hv hmem
    obtain ⟨a, ⟨ha, hl, -⟩, rfl⟩ := (h.mem_inputIDs hp).mp hv
    cases hneg : isNegated a with
    | true => exact hproper.latch (ha.eq_bad hneg ▸ hneg) (ha.eq_bad hneg ▸ hmem)
    | false =>
      rw [strip_of_plain hneg] at hmem
      exact hl ((hp.mem_latchIDs hwf).mpr ⟨hmem, ha⟩)
  have hil : p.inputIDs.Disjoint p.latchIDs := fun v hv hmem ↦
    hkept v hv ((hp.mem_latchIDs hwf).mp hmem).1
  have hig : p.inputIDs.Disjoint p.gateIDs := by
    intro v hv hmem
    obtain ⟨a, ⟨ha, -, hg⟩, rfl⟩ := (h.mem_inputIDs hp).mp hv
    cases hneg : isNegated a with
    | true =>
      obtain rfl := ha.eq_bad hneg
      obtain ⟨hgate, hS⟩ := (hp.mem_gateIDs hwf).mp hmem
      exact hproper.gate hneg hgate hS
    | false => exact hg (strip_of_plain hneg ▸ hmem)
  have hlg : p.latchIDs.Disjoint p.gateIDs := fun v hv hmem ↦ hwf.not_gate
    (List.mem_append_right _ ((hp.mem_latchIDs hwf).mp hv).1) ((hp.mem_gateIDs hwf).mp hmem).1
  refine ⟨?_, h.nodup, ?_, hil, hig, hlg, fun v hv ↦ ?_, fun v hv ↦ .inr ?_, hkept⟩
  · rw [h.inputIDs]
    refine List.Nodup.map_on (fun a ha b hb heq ↦ ?_) ((Finset.sort_nodup _ _).filter _)
    have hca := ((h.mem_free hp).mp ha).1
    have hcb := ((h.mem_free hp).mp hb).1
    cases hna : isNegated a with
    | true =>
      obtain rfl := hca.eq_bad hna
      cases hnb : isNegated b with
      | true => exact (hcb.eq_bad hnb).symm
      | false => exact absurd ((heq.trans (strip_of_plain hnb)) ▸ hcb) (hproper.read hna)
    | false =>
      cases hnb : isNegated b with
      | true =>
        obtain rfl := hcb.eq_bad hnb
        exact absurd ((heq.symm.trans (strip_of_plain hna)) ▸ hca) (hproper.read hnb)
      | false => rwa [strip_of_plain hna, strip_of_plain hnb] at heq
  · rw [hp.gateIDs, hp.gates]
    have hnodup := (List.nodup_append.mp hwf.nodup).2.1
    rw [hwf.gateIDs_eq] at hnodup
    exact hnodup.sublist (List.filter_sublist.map _)
  · cases mem_signals.mp hv with
    | inl hil =>
      cases List.mem_append.mp hil with
      | inl hin => exact hinputs v hin
      | inr hl => exact hvars v (hlatch v hl)
    | inr hg => exact hvars v (hgate v hg)
  · obtain ⟨a, ha, rfl⟩ := hv.cone hp
    by_cases hl : a ∈ p.latchIDs
    · rw [strip_of_plain (hvars a (hlatch a hl)).1]
      exact .inr (.inl ⟨fun hin ↦ hil hin hl, hl, fun hg ↦ hlg hl hg⟩)
    · by_cases hg : a ∈ p.gateIDs
      · rw [strip_of_plain (hvars a (hgate a hg)).1]
        exact .inr (.inr ⟨fun hin ↦ hig hin hg, hl, hg⟩)
      · have hin := (h.mem_inputIDs hp).mpr ⟨a, ⟨ha, hl, hg⟩, rfl⟩
        exact .inl ⟨hin, fun hmem ↦ hil hin hmem, fun hmem ↦ hig hin hmem⟩

/-- The constructor makes a partition of the signals exactly if the cone is proper. -/
theorem ofGates_roles (h : tr.WellFormed) (S : List ℕ) :
    Meets (fun p ↦ Roles tr p ↔ Proper tr S) (fun _ ↦ False) (tr.ofGates S) := by
  have hmeets : Meets _ (fun _ ↦ False) (tr.ofGates S) := ofGates_assigns h.latches_nodup S
  refine hmeets.imp fun p hp ↦ ?_
  obtain ⟨hpart, relevant, ha⟩ := hp
  exact ⟨Proper.of_roles ha hpart h, Roles.of_proper ha hpart h⟩

/-- The second gate reads the first, which the circuit of the second alone has as its input. -/
theorem relay_roles : Proper relay [8] ∧
    ∃ p, relay.ofGates [8] = .ok p ∧ Roles relay p ∧ 6 ∈ p.inputIDs ∧ p.gateIDs = [8] ∧ p.latchIDs = [] := by
  have hcone : ∀ v, Cone relay [8] v → v = 8 ∨ v = 6 := by
    have hrhs : ∀ g ∈ relay.gates, g.lhs ∈ [8] → strip g.rhs0 = 6 ∧ strip g.rhs1 = 6 := by decide
    intro v hv
    induction hv with
    | bad => exact .inl rfl
    | rhs0 hg hS => exact .inr (hrhs _ hg hS).1
    | rhs1 hg hS => exact .inr (hrhs _ hg hS).2
    | next hl _ ih =>
      obtain rfl := List.mem_singleton.mp hl
      exact absurd ih (by decide)
  have hproper : Proper relay [8] := by
    refine ⟨fun v hv ↦ ?_, by decide, by decide, fun hneg ↦ absurd hneg (by decide)⟩
    obtain rfl | rfl := hcone v hv
    · decide
    · decide
  obtain ⟨p, hok, hroles⟩ := (ofGates_roles relay_wellFormed [8]).exists_ok
  have hr := hroles.mpr hproper
  have hparts : p.gates = [⟨8, 6, 6⟩] ∧ p.gateIDs = [8] ∧ p.latchIDs = [] := by
    obtain rfl : _ = p := Except.ok.inj hok
    exact ⟨rfl, rfl, rfl⟩
  have hread : Reads p (strip 6) := .rhs0 (g := ⟨8, 6, 6⟩) (hparts.1 ▸ List.mem_singleton_self _)
  refine ⟨hproper, p, hok, hr, ?_, hparts.2⟩
  obtain hconst | ⟨hin, -, -⟩ | ⟨-, hl, -⟩ | ⟨-, -, hg⟩ := hr.reads _ hread
  · exact absurd hconst (by decide)
  · exact hin
  · rw [hparts.2.2] at hl
    exact absurd hl List.not_mem_nil
  · rw [hparts.2.1] at hg
    exact absurd hg (by decide)

theorem ofGates_roles_fails : ¬ ∀ (tr : TransitionRelation) (S : List ℕ), tr.WellFormed →
    Meets (Roles tr) (fun _ ↦ False) (tr.ofGates S) := by
  intro hall
  obtain ⟨p, hok, hroles⟩ := (hall stuck [] stuck_wellFormed).exists_ok
  have hmeets : Meets _ (fun _ ↦ False) (stuck.ofGates []) := ofGates_assigns stuck_wellFormed.latches_nodup []
  obtain ⟨hpart, relevant, ha⟩ := hmeets.of_ok hok
  exact (Proper.of_roles ha hpart stuck_wellFormed hroles).latch (by decide) (by decide)

end PME.TransitionRelation
