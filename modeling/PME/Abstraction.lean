import PME.PartialRelation

namespace PME.TransitionRelation

open Outcome

variable (tr : TransitionRelation)

structure FreeFrame (S : List ℕ) (x : Assignment) : Prop where
  const : x idFalse = false
  gates : ∀ g ∈ tr.gates, g.lhs ∈ S → litVal x g.lhs = (litVal x g.rhs0 && litVal x g.rhs1)
  constraints : ∀ c ∈ tr.constraints, litVal x c = true

/-- The bad literal at step `k` of the circuit in which the gates outside `S` and the latches
outside `L` take arbitrary values in every frame. -/
def FreeBadAt (S : List ℕ) (L : Set ℕ) (k : ℕ) : Prop :=
  ∃ x : ℕ → Assignment,
    (∀ l ∈ tr.latches, l.id ∈ L → l.reset ≠ idNull → x 0 l.id = litVal (x 0) l.reset) ∧
    (∀ i < k + 1, tr.FreeFrame S (x i) ∧
      ∀ l ∈ tr.latches, l.id ∈ L → x (i + 1) l.id = litVal (x i) l.next) ∧
    litVal (x k) tr.bad = true

def ReadsCone (S : List ℕ) : Prop :=
  ∀ lit ∈ tr.bad :: tr.constraints, strip lit ∈ tr.latchIDs → Cone tr S (strip lit)

variable {tr} {S S' : List ℕ} {p p' : TransitionRelation} {x : ℕ → Assignment} {k : ℕ}

theorem IsPartial.isFrame_iff (h : IsPartial tr S p) {y : Assignment} :
    p.IsFrame y ↔ tr.FreeFrame S y := by
  have hgates : satClauses y p.toCNF ↔
      ∀ g ∈ tr.gates, g.lhs ∈ S → litVal y g.lhs = (litVal y g.rhs0 && litVal y g.rhs1) := by
    rw [toCNF, h.gateCNF, satClauses_flatMap, h.gates]
    simp only [List.mem_filter, List.contains_eq_mem, decide_eq_true_eq, satClauses_toCNF, and_imp]
  constructor
  · intro hf
    exact ⟨hf.const, hgates.mp hf.gates, h.constraints ▸ hf.constraints⟩
  · intro hf
    exact ⟨hf.const, hgates.mpr hf.gates, h.constraints ▸ hf.constraints⟩

/-- The constructor makes the circuit in which the latches outside the cone are free, too. -/
theorem IsPartial.badAt_iff (h : IsPartial tr S p) (k : ℕ) :
    p.BadAt k ↔ tr.FreeBadAt S {v | Cone tr S v} k := by
  refine exists_congr fun x ↦ and_congr ?_ (and_congr (forall₂_congr fun i _ ↦ ?_) (by rw [h.bad]))
  · simp only [IsInit, h.latches, and_imp, Set.mem_ofPred_eq]
  · rw [h.isFrame_iff]
    simp only [Step, h.latches, and_imp, Set.mem_ofPred_eq]

theorem FreeBadAt.mono {L L' : Set ℕ} (hL : L ⊆ L') (h : tr.FreeBadAt S L' k) :
    tr.FreeBadAt S L k := by
  obtain ⟨x, hinit, hrun, hbad⟩ := h
  refine ⟨x, fun l hl hid ↦ hinit l hl (hL hid), fun i hi ↦ ?_, hbad⟩
  obtain ⟨hf, hstep⟩ := hrun i hi
  exact ⟨hf, fun l hl hid ↦ hstep l hl (hL hid)⟩

theorem badAt_eq_freeBadAt (hplain : tr.gateCNF = AndGate.toCNF)
    (hall : ∀ g ∈ tr.gates, g.lhs ∈ S) (k : ℕ) : tr.BadAt k ↔ tr.FreeBadAt S Set.univ k := by
  have hframe : ∀ y, tr.IsFrame y ↔ tr.FreeFrame S y := by
    intro y
    have hgates : satClauses y tr.toCNF ↔
        ∀ g ∈ tr.gates, g.lhs ∈ S → litVal y g.lhs = (litVal y g.rhs0 && litVal y g.rhs1) := by
      rw [toCNF, hplain, satClauses_flatMap]
      refine forall₂_congr fun g hg ↦ ?_
      rw [satClauses_toCNF]
      exact ⟨fun h _ ↦ h, fun h ↦ h (hall g hg)⟩
    exact ⟨fun hf ↦ ⟨hf.const, hgates.mp hf.gates, hf.constraints⟩,
      fun hf ↦ ⟨hf.const, hgates.mpr hf.gates, hf.constraints⟩⟩
  refine exists_congr fun x ↦ and_congr ?_ (and_congr_left' (forall₂_congr fun i _ ↦ ?_))
  · simp only [IsInit, Set.mem_univ, true_implies]
  · rw [hframe]
    simp only [Step, Set.mem_univ, true_implies]

section Repair

open Classical in
noncomputable def repair (tr : TransitionRelation) (L : Set ℕ) (x : ℕ → Assignment) :
    ℕ → Assignment
  | 0 => fun v ↦ if h : v ∉ L ∧ ∃ l ∈ tr.latches, l.id = v ∧ l.reset ≠ idNull then
      litVal (x 0) h.2.choose.reset else x 0 v
  | n + 1 => fun v ↦ if h : v ∉ L ∧ ∃ l ∈ tr.latches, l.id = v then
      litVal (repair tr L x n) h.2.choose.next else x (n + 1) v

variable {L : Set ℕ}

theorem repair_eq {v : ℕ} (hv : v ∈ tr.latches.map Latch.id → v ∈ L) (n : ℕ) :
    repair tr L x n v = x n v := by
  cases n with
  | zero =>
    refine dif_neg ?_
    rintro ⟨hL, l, hl, rfl, -⟩
    exact hL (hv (List.mem_map_of_mem hl))
  | succ n =>
    refine dif_neg ?_
    rintro ⟨hL, l, hl, rfl⟩
    exact hL (hv (List.mem_map_of_mem hl))

theorem litVal_repair {lit : ℕ} (hv : strip lit ∈ tr.latches.map Latch.id → strip lit ∈ L) (n : ℕ) :
    litVal (repair tr L x n) lit = litVal (x n) lit := litVal_congr (repair_eq hv n)

theorem repair_next (hnodup : (tr.latches.map Latch.id).Nodup) {l : Latch} (hl : l ∈ tr.latches)
    (hL : l.id ∉ L) (n : ℕ) :
    repair tr L x (n + 1) l.id = litVal (repair tr L x n) l.next := by
  have hex : l.id ∉ L ∧ ∃ l' ∈ tr.latches, l'.id = l.id := ⟨hL, l, hl, rfl⟩
  have hsame : hex.2.choose = l :=
    List.inj_on_of_nodup_map hnodup hex.2.choose_spec.1 hl hex.2.choose_spec.2
  have hrep : repair tr L x (n + 1) l.id = litVal (repair tr L x n) hex.2.choose.next := dif_pos hex
  rw [hrep, hsame]

theorem repair_init (hnodup : (tr.latches.map Latch.id).Nodup) {l : Latch} (hl : l ∈ tr.latches)
    (hL : l.id ∉ L) (hr : l.reset ≠ idNull) :
    repair tr L x 0 l.id = litVal (x 0) l.reset := by
  have hex : l.id ∉ L ∧ ∃ l' ∈ tr.latches, l'.id = l.id ∧ l'.reset ≠ idNull :=
    ⟨hL, l, hl, rfl, hr⟩
  have hsame : hex.2.choose = l :=
    List.inj_on_of_nodup_map hnodup hex.2.choose_spec.1 hl hex.2.choose_spec.2.1
  have hrep : repair tr L x 0 l.id = litVal (x 0) hex.2.choose.reset := dif_pos hex
  rw [hrep, hsame]

end Repair

/-- When the bad literal and the constraints read no latch outside the cone, such latches may
be set back to what they are in the circuit. -/
theorem FreeBadAt.of_readsCone (h : tr.WellFormed) (hreads : tr.ReadsCone S)
    (hbad : tr.FreeBadAt S {v | Cone tr S v} k) : tr.FreeBadAt S Set.univ k := by
  obtain ⟨x, hinit, hrun, hbadk⟩ := hbad
  let L : Set ℕ := {v | Cone tr S v}
  have hnodup : (tr.latches.map Latch.id).Nodup := by
    rw [← h.latchIDs_eq]
    exact (List.nodup_append.mp (List.nodup_append.mp h.nodup).1).2.1
  have hnotLatch : ∀ v, v ∉ tr.signals ∨ v ∈ tr.gateIDs → v ∈ tr.latches.map Latch.id → v ∈ L := by
    intro v hv hlatch
    rw [← h.latchIDs_eq] at hlatch
    have hmem : v ∈ tr.inputIDs ++ tr.latchIDs := List.mem_append_right _ hlatch
    rcases hv with hv | hv
    · exact absurd (List.mem_append_left _ hmem) hv
    · exact absurd hv (h.not_gate hmem)
  have hconst : idFalse ∉ tr.signals := fun hmem ↦ absurd (h.isVar _ hmem).1 (by decide)
  have hread : ∀ lit ∈ tr.bad :: tr.constraints, ∀ i,
      litVal (repair tr L x i) lit = litVal (x i) lit := fun lit hlit ↦
    litVal_repair fun hlatch ↦ hreads lit hlit (h.latchIDs_eq ▸ hlatch)
  refine ⟨repair tr L x, fun l hl _ hr ↦ ?_, fun i hi ↦ ⟨⟨?_, ?_, ?_⟩, fun l hl _ ↦ ?_⟩, ?_⟩
  · have hreset : litVal (repair tr L x 0) l.reset = litVal (x 0) l.reset := by
      refine litVal_repair (hnotLatch _ (.inl ?_)) 0
      rcases h.reset l hl with hz | hz | hz
      · exact absurd hz hr
      · rw [hz]
        exact hconst
      · rw [hz, strip_idTrue]
        exact hconst
    rw [hreset]
    by_cases hL : l.id ∈ L
    · rw [repair_eq fun _ ↦ hL]
      exact hinit l hl hL hr
    · exact repair_init hnodup hl hL hr
  · rw [repair_eq (hnotLatch _ (.inl hconst))]
    exact (hrun i hi).1.const
  · intro g hg hS
    have hgate : strip g.lhs ∈ tr.gateIDs := by
      have hmem := h.gate_mem hg
      rw [strip_of_even (h.isVar _ (mem_signals.mpr (.inr hmem))).2.2]
      exact hmem
    rw [litVal_repair (hnotLatch _ (.inr hgate)), litVal_repair fun _ ↦ .rhs0 hg hS,
      litVal_repair fun _ ↦ .rhs1 hg hS]
    exact (hrun i hi).1.gates g hg hS
  · intro c hc
    rw [hread c (List.mem_cons_of_mem _ hc)]
    exact (hrun i hi).1.constraints c hc
  · by_cases hL : l.id ∈ L
    · rw [repair_eq fun _ ↦ hL, litVal_repair fun _ ↦ .next hl hL]
      exact (hrun i hi).2 l hl hL
    · exact repair_next hnodup hl hL i
  · rw [hread _ List.mem_cons_self]
    exact hbadk

/-- The partial circuit means the circuit with the other gates free exactly when its freed
latches add no bad step, as when the bad literal and the constraints read none of them. -/
theorem ofGates_meaning (h : tr.WellFormed) (S : List ℕ) : ∃ p, tr.ofGates S = .ok p ∧
    (∀ k, (p.BadAt k ↔ tr.FreeBadAt S Set.univ k) ↔
      (tr.FreeBadAt S {v | Cone tr S v} k → tr.FreeBadAt S Set.univ k)) ∧
    (tr.ReadsCone S → ∀ k, p.BadAt k ↔ tr.FreeBadAt S Set.univ k) ∧
    (tr.ReadsCone S → tr.gateCNF = AndGate.toCNF → tr.gateIDs ⊆ S →
      ∀ k, p.BadAt k ↔ tr.BadAt k) := by
  have hnodup : (tr.latches.map Latch.id).Nodup := by
    rw [← h.latchIDs_eq]
    exact (List.nodup_append.mp (List.nodup_append.mp h.nodup).1).2.1
  obtain ⟨p, hok, hp⟩ := Meets.exists_ok (ofGates_meets hnodup S)
  have hcone : tr.ReadsCone S → ∀ k, p.BadAt k ↔ tr.FreeBadAt S Set.univ k := by
    intro hreads k
    rw [hp.badAt_iff]
    exact ⟨.of_readsCone h hreads, .mono (Set.subset_univ _)⟩
  refine ⟨p, hok, fun k ↦ ?_, hcone, fun hreads hplain hall k ↦ ?_⟩
  · rw [hp.badAt_iff]
    exact ⟨fun hiff ↦ hiff.mp, fun himp ↦ ⟨himp, .mono (Set.subset_univ _)⟩⟩
  · rw [hcone hreads, badAt_eq_freeBadAt hplain fun g hg ↦ hall (h.gate_mem hg)]

/-- With the second gate only, the first is free; with both it is the circuit itself. -/
theorem relay_meaning : ∃ p p', relay.ofGates [8] = .ok p ∧ relay.ofGates [6, 8] = .ok p' ∧
    (∀ k, p.BadAt k ↔ relay.FreeBadAt [8] Set.univ k) ∧ ∀ k, p'.BadAt k ↔ relay.BadAt k := by
  have hreads : ∀ S, relay.ReadsCone S := by
    intro S lit hlit hmem
    obtain rfl := List.mem_singleton.mp hlit
    exact absurd hmem (by decide)
  obtain ⟨p, hok, -, hfree, -⟩ := ofGates_meaning relay_wellFormed [8]
  obtain ⟨p', hok', -, -, hall⟩ := ofGates_meaning relay_wellFormed [6, 8]
  exact ⟨p, p', hok, hok', hfree (hreads _), hall (hreads _) rfl (List.Subset.refl _)⟩

/-- The cone is entered through the bad literal with its sign, so a negated latch is not in it. -/
theorem cone_stuck {v : ℕ} (hv : Cone stuck [] v) : v = negate 4 := by
  induction hv with
  | bad => rfl
  | rhs0 hg => exact absurd hg List.not_mem_nil
  | rhs1 hg => exact absurd hg List.not_mem_nil
  | next hl _ ih =>
    obtain rfl := List.mem_singleton.mp hl
    exact absurd ih (by decide)

theorem ofGates_meaning_fails : ¬ ∀ tr : TransitionRelation, tr.WellFormed →
    ∀ S ⊆ tr.gateIDs, ∀ p, tr.ofGates S = .ok p →
      ∀ k, p.BadAt k ↔ tr.FreeBadAt S Set.univ k := by
  intro hall
  have hm : Meets (IsPartial stuck []) (fun _ ↦ False) (stuck.ofGates []) :=
    ofGates_meets (by decide) []
  obtain ⟨p, hok, hp⟩ := hm.exists_ok
  have hbad : stuck.FreeBadAt [] {v | Cone stuck [] v} 0 := by
    refine ⟨fun _ _ ↦ false, fun l hl hid ↦ ?_, fun i _ ↦ ⟨⟨rfl, nofun, nofun⟩, ?_⟩, rfl⟩
    · obtain rfl := List.mem_singleton.mp hl
      exact absurd (cone_stuck hid) (by decide)
    · exact fun _ _ _ ↦ by simp_all [stuck, litVal, isNegated]
  obtain ⟨x, hinit, hrun, hx⟩ :=
    (hall stuck stuck_wellFormed [] (List.nil_subset _) p hok 0).mp ((hp.badAt_iff 0).mpr hbad)
  have hone : x 0 4 = litVal (x 0) idTrue :=
    hinit ⟨4, 4, idTrue⟩ List.mem_cons_self (Set.mem_univ _) (by decide)
  have hconst := (hrun 0 Nat.one_pos).1.const
  have hval : litVal (x 0) (negate 4) = true := hx
  rw [litVal_negate, litVal_of_even rfl, hone, litVal_idTrue, hconst] at hval
  exact absurd hval (by decide)

section Monotone

variable (h : IsPartial tr S p) (h' : IsPartial tr S' p')

include h h'

theorem IsPartial.gates_subset (hS : S ⊆ S') : p.gates ⊆ p'.gates := by
  intro g hg
  rw [h.gates, List.mem_filter] at hg
  rw [h'.gates, List.mem_filter]
  have hmem : g.lhs ∈ S := by simpa using hg.2
  exact ⟨hg.1, by simpa using hS hmem⟩

theorem IsPartial.latches_subset (hS : S ⊆ S') : p.latches ⊆ p'.latches := by
  intro l hl
  obtain ⟨hmem, hcone⟩ := (h.latches l).mp hl
  exact (h'.latches l).mpr ⟨hmem, hcone.mono hS⟩

theorem IsPartial.toCNF_subset (hS : S ⊆ S') : p.toCNF ⊆ p'.toCNF := by
  intro cls hcls
  rw [toCNF, h.gateCNF, List.mem_flatMap] at hcls
  rw [toCNF, h'.gateCNF, List.mem_flatMap]
  obtain ⟨g, hg, hc⟩ := hcls
  exact ⟨g, h.gates_subset h' hS hg, hc⟩

theorem IsPartial.unroll_subset (hS : S ⊆ S') (n : ℕ) : p.unroll n ⊆ p'.unroll n := by
  intro cls hcls
  obtain ⟨i, hi, hc⟩ := List.mem_flatMap.mp hcls
  refine List.mem_flatMap.mpr ⟨i, hi, ?_⟩
  rw [addTimeFrame, List.mem_append, List.mem_append] at hc ⊢
  rcases hc with (hc | hc) | hc
  · obtain ⟨c, hmem, rfl⟩ := List.mem_map.mp hc
    exact .inl (.inl (List.mem_map.mpr ⟨c, h.toCNF_subset h' hS hmem, rfl⟩))
  · obtain ⟨l, hl, hc⟩ := List.mem_flatMap.mp hc
    exact .inl (.inr (List.mem_flatMap.mpr ⟨l, h.latches_subset h' hS hl, hc⟩))
  · rw [constrainTimeFrame, h.constraints, ← h'.constraints] at hc
    exact .inr hc

theorem IsPartial.initState_subset (hS : S ⊆ S') : p.initState ⊆ p'.initState := by
  intro cls hcls
  obtain ⟨l, hl, hc⟩ := List.mem_flatMap.mp hcls
  exact List.mem_flatMap.mpr ⟨l, h.latches_subset h' hS hl, hc⟩

theorem IsPartial.badAt_mono (hS : S ⊆ S') {k : ℕ} (hbad : p'.BadAt k) : p.BadAt k := by
  obtain ⟨x, hinit, hrun, hb⟩ := hbad
  have hl := h.latches_subset h' hS
  refine ⟨x, fun l hmem ↦ hinit l (hl hmem), fun i hi ↦ ?_, ?_⟩
  · obtain ⟨hf, hstep⟩ := hrun i hi
    refine ⟨⟨hf.const, fun cls hc ↦ hf.gates cls (h.toCNF_subset h' hS hc), ?_⟩,
      fun l hmem ↦ hstep l (hl hmem)⟩
    rw [h.constraints, ← h'.constraints]
    exact hf.constraints
  · rw [h.bad, ← h'.bad]
    exact hb

end Monotone

/-- More gates give more clauses, and so no more unsafe circuits. -/
theorem ofGates_mono (hnodup : (tr.latches.map Latch.id).Nodup) (hS : S ⊆ S') :
    ∃ p p', tr.ofGates S = .ok p ∧ tr.ofGates S' = .ok p' ∧
      (∀ n, p.unroll n ⊆ p'.unroll n) ∧ p.initState ⊆ p'.initState ∧ (p.Safe → p'.Safe) := by
  obtain ⟨p, hok, hp⟩ := Meets.exists_ok (ofGates_meets hnodup S)
  obtain ⟨p', hok', hp'⟩ := Meets.exists_ok (ofGates_meets hnodup S')
  refine ⟨p, p', hok, hok', hp.unroll_subset hp' hS, hp.initState_subset hp' hS, fun hsafe k ↦ ?_⟩
  exact fun hbad ↦ hsafe k (hp.badAt_mono hp' hS hbad)

/-- With the second gate only, the first is an input and the latch is left out. -/
theorem relay_mono : ∃ p p', relay.ofGates [8] = .ok p ∧ relay.ofGates [6, 8] = .ok p' ∧
    (p.gateIDs = [8] ∧ p.latchIDs = [] ∧ p'.gateIDs = [6, 8] ∧ p'.latchIDs = [4]) ∧
    (∀ n, p.unroll n ⊆ p'.unroll n) ∧ p.initState ⊆ p'.initState ∧ (p.Safe → p'.Safe) := by
  obtain ⟨p, p', hok, hok', hmono⟩ : ∃ p p', relay.ofGates [8] = .ok p ∧
      relay.ofGates [6, 8] = .ok p' ∧ _ := ofGates_mono (by decide) (by decide)
  refine ⟨p, p', hok, hok', ?_, hmono⟩
  obtain ⟨rfl⟩ : _ = p := Except.ok.inj hok
  obtain ⟨rfl⟩ : _ = p' := Except.ok.inj hok'
  exact ⟨rfl, rfl, rfl, rfl⟩

end PME.TransitionRelation
